import QueryTally.Config
import QueryTally.Granularity

/-! # The viewer's command line

Options stand before the command they belong to or after it, and take a value each:
`--name value`, `--name=value`, `-n value`, `-nvalue` or `-n=value`. No option may be
given twice. Two dashes end the options, after which nothing may follow. -/

namespace QueryTally.Viewer

inductive Command where
  /-- To print a report. -/
  | report (g : Granularity) (format : String)
  /-- To print the retention settings. -/
  | info
  /-- To delete all statistics. -/
  | reset
  deriving DecidableEq, Repr

structure Arguments where
  path : String
  days : UInt32
  command : Command
  deriving DecidableEq, Repr

inductive Rejection where
  /-- It asks for help. -/
  | help
  /-- It was not understood. -/
  | usage
  deriving DecidableEq, Repr

structure Spec where
  long : String
  short : Option Char
  deriving DecidableEq, Repr

/-- Whether an argument is an option, or ends the options. -/
def isOption (s : String) : Bool :=
  match s.toList with
  | '-' :: _ :: _ => true
  | _ => false

/-- An option with its value, from the option's argument and the ones after it. Gives the
arguments that are left. -/
def withValue (spec : Spec) (attached : Option String) (rest : List String) :
    Except Rejection (Spec × String × List String) :=
  match attached, rest with
  | some value, rest => .ok (spec, value, rest)
  | none, value :: rest => if isOption value then .error .usage else .ok (spec, value, rest)
  | none, [] => .error .usage

def readOption (specs : List Spec) (argument : String) (rest : List String) :
    Except Rejection (Spec × String × List String) :=
  match argument.toList with
  | '-' :: '-' :: cs =>
    let name := String.ofList (cs.takeWhile (· != '='))
    let attached := match cs.dropWhile (· != '=') with
      | _ :: value => some (String.ofList value)
      | [] => none
    match specs.find? (·.long == name) with
    | some spec => withValue spec attached rest
    | none => .error (if name = "help" ∧ attached = none then .help else .usage)
  | '-' :: c :: cs =>
    let attached := match cs with
      | [] => none
      | '=' :: value => some (String.ofList value)
      | value => some (String.ofList value)
    match specs.find? (·.short == some c) with
    | some spec => withValue spec attached rest
    | none => .error (if c = 'h' then .help else .usage)
  | _ => .error .usage

def pathSpec : Spec := ⟨"db", some 'd'⟩

def daysSpec : Spec := ⟨"days", none⟩

def unitSpec : Spec := ⟨"unit", some 'u'⟩

def formatSpec : Spec := ⟨"format", some 'f'⟩

/-- A number of days, with an optional sign. -/
def parseDays? (s : String) : Option UInt32 :=
  match s.toList with
  | '-' :: cs => if cs.head? = some '+' then none
    else (parseNat? 0 (String.ofList cs)).map UInt32.ofNat
  | _ => (parseNat? (UInt32.size - 1) s).map UInt32.ofNat

abbrev Given := List (Spec × String)

/-- Adds an option, unless it was given before. -/
def Given.add (given : Given) (spec : Spec) (value : String) : Except Rejection Given :=
  if given.any (·.1 == spec) then .error .usage else .ok (given ++ [(spec, value)])

def Given.value? (given : Given) (spec : Spec) : Option String :=
  (given.find? (·.1 == spec)).map (·.2)

def acceptable (spec : Spec) (value : String) : Bool :=
  if spec = pathSpec then value != ""
  else if spec = daysSpec then (parseDays? value).isSome
  else if spec = unitSpec then (Granularity.parse value).isOk
  else true

/-- Reads options up to the first argument that is none. `fuel` bounds their number. -/
def readOptions (specs : List Spec) (given : Given) :
    Nat → List String → Except Rejection (Given × List String)
  | fuel + 1, argument :: rest =>
    if argument = "--" ∨ !isOption argument then .ok (given, argument :: rest)
    else do
      let (spec, value, rest) ← readOption specs argument rest
      if !acceptable spec value then .error .usage
      else
        let given ← given.add spec value
        readOptions specs given fuel rest
  | _, rest => .ok (given, rest)

/-- What follows the options of a command: nothing, or two dashes. -/
def atEnd (rest : List String) : Except Rejection Unit :=
  if rest = [] ∨ rest = ["--"] then .ok () else .error .usage

/-- The commands. Help can be asked about one of them. -/
def commandNames : List String := ["show", "info", "reset", "help"]

def readCommand : List String → Except Rejection Command
  | [] => .error .usage
  | name :: rest => do
    if name = "help" then
      .error (match rest with
        | [] => .help
        | [name] => if commandNames.contains name then .help else .usage
        | _ => .usage)
    else
      let specs := if name = "show" then [unitSpec, formatSpec] else []
      if !commandNames.contains name then .error .usage
      else
        let (given, rest) ← readOptions specs [] rest.length rest
        atEnd rest
        if name = "show" then
          let g := match given.value? unitSpec with
            | some s => (Granularity.parse s).toOption.getD .hours
            | none => .hours
          return .report g ((given.value? formatSpec).getD "pretty")
        else if name = "info" then return .info
        else return .reset

def readArguments (arguments : List String) : Except Rejection Arguments := do
  let (given, rest) ← readOptions [pathSpec, daysSpec] [] arguments.length arguments
  let command ← readCommand rest
  let defaults : Config := {}
  return {
    path := (given.value? pathSpec).getD defaults.path
    days := ((given.value? daysSpec).bind parseDays?).getD defaults.days
    command }

end QueryTally.Viewer
