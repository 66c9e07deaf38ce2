import SandboxProfile.CommandLine.Command

/-!
# Arguments

The first argument names the command. Those behind it are switches and files in any order: a switch
is written with two hyphens and its name, or with one hyphen and a letter, and letters may stand
together. A value stands behind an equals sign, directly behind the letter, or in an argument of its
own, which then is no switch. Behind two hyphens alone everything is a file. Each switch may be
given once.
-/

namespace SandboxProfile.CommandLine

inductive Switch where
  | output
  | indent
  | tabs
  | check
  | compact
deriving DecidableEq, Repr

namespace Switch

def name : Switch → String
  | output => "output"
  | indent => "indent"
  | tabs => "tabs"
  | check => "check"
  | compact => "compact"

def letter? : Switch → Option Char
  | output => some 'o'
  | check => some 'c'
  | _ => none

def takesValue : Switch → Bool
  | output | indent => true
  | tabs | check | compact => false

end Switch

/-- The commands by name. -/
inductive Verb where
  | tokenize
  | check
  | format
  | toJson
  | ofJson
deriving DecidableEq, Repr

namespace Verb

def ofText? : String → Option Verb
  | "tokenize" => some tokenize
  | "check" => some check
  | "format" => some format
  | "to-json" => some toJson
  | "from-json" => some ofJson
  | _ => none

/-- The switches that a command knows. -/
def switches : Verb → List Switch
  | tokenize | check => []
  | format => [.output, .indent, .tabs, .check]
  | toJson => [.output, .compact]
  | ofJson => [.output, .indent, .tabs]

end Verb

/-- Why arguments are rejected. -/
inductive Rejection where
  | noCommand
  | unknownCommand (text : String)
  | unknownSwitch (text : String)
  | valueMissing (switch : Switch)
  | valueNotTaken (switch : Switch)
  | repeated
  | indentWithTabs
  | invalidIndent (text : String)
  | notOneFile (count : Nat)
deriving DecidableEq, Repr

def Rejection.message : Rejection → String
  | noCommand => "a command is required"
  | unknownCommand text => s!"unknown command '{text}'"
  | unknownSwitch text => s!"unexpected argument '{text}'"
  | valueMissing switch => s!"a value is required for '--{switch.name}'"
  | valueNotTaken switch => s!"no value is taken by '--{switch.name}'"
  | repeated => "a switch was given twice"
  | indentWithTabs => "'--indent' cannot be used with '--tabs'"
  | invalidIndent text => s!"invalid number of spaces '{text}'"
  | notOneFile count => s!"one file is required, {count} were given"

/-- An argument, or a part of one. -/
inductive Argument where
  | file (path : String)
  | flag (switch : Switch)
  | valued (switch : Switch) (value : String)
deriving DecidableEq, Repr

/-- Arguments, the last of which may be a switch that still needs its value. -/
structure Taken where
  arguments : List Argument
  open? : Option Switch

/-- A switch by its name, with the value behind an equals sign. -/
def takeNamed (known : List Switch) (text : List Char) : Except Rejection Taken :=
  let name := String.ofList (text.takeWhile (· ≠ '='))
  match known.find? (·.name = name), text.dropWhile (· ≠ '=') with
  | none, _ => .error (.unknownSwitch ("--" ++ name))
  | some switch, [] =>
    if switch.takesValue then .ok ⟨[], some switch⟩ else .ok ⟨[.flag switch], none⟩
  | some switch, _ :: value =>
    if switch.takesValue then .ok ⟨[.valued switch (String.ofList value)], none⟩
    else .error (.valueNotTaken switch)

/-- Switches by their letters, the last with a value behind it. -/
def takeLetters (known : List Switch) : List Char → Except Rejection Taken
  | [] => .ok ⟨[], none⟩
  | c :: more =>
    match known.find? (·.letter? = some c) with
    | none => .error (.unknownSwitch (String.ofList ['-', c]))
    | some switch =>
      if switch.takesValue then
        match more with
        | [] => .ok ⟨[], some switch⟩
        | '=' :: value => .ok ⟨[.valued switch (String.ofList value)], none⟩
        | value => .ok ⟨[.valued switch (String.ofList value)], none⟩
      else do
        let taken ← takeLetters known more
        .ok ⟨.flag switch :: taken.arguments, taken.open?⟩

def take (known : List Switch) (arg : String) : Except Rejection Taken :=
  match arg.toList with
  | '-' :: '-' :: text => takeNamed known text
  | '-' :: c :: more => takeLetters known (c :: more)
  | _ => .ok ⟨[.file arg], none⟩

/-- Whether an argument cannot be a value that stands alone. -/
def isSwitch (arg : String) : Bool :=
  match arg.toList with
  | '-' :: _ :: _ => true
  | _ => false

def takeAll (known : List Switch) : List String → Except Rejection (List Argument)
  | [] => .ok []
  | arg :: rest =>
    if arg = "--" then .ok (rest.map .file)
    else
      match take known arg, rest with
      | .error rejection, _ => .error rejection
      | .ok ⟨arguments, none⟩, rest => do
        let more ← takeAll known rest
        .ok (arguments ++ more)
      | .ok ⟨_, some switch⟩, [] => .error (.valueMissing switch)
      | .ok ⟨arguments, some switch⟩, value :: rest =>
        if isSwitch value then .error (.valueMissing switch)
        else do
          let more ← takeAll known rest
          .ok (arguments ++ .valued switch value :: more)

/-! ### Meaning -/

namespace Argument

def switch? : Argument → Option Switch
  | file _ => none
  | flag switch | valued switch _ => some switch

def file? : Argument → Option String
  | file path => some path
  | _ => none

/-- The value of a switch, if it was given. -/
def valueOf (switch : Switch) (arguments : List Argument) : Option String :=
  arguments.findSome? fun
    | valued s value => if s = switch then some value else none
    | _ => none

def has (switch : Switch) (arguments : List Argument) : Bool :=
  arguments.any (·.switch? = some switch)

end Argument

/-- A number of 64 bits in decimal digits, with or without a plus sign. -/
def number? (text : String) : Option Nat :=
  let digits :=
    match text.toList with
    | '+' :: cs => cs
    | cs => cs
  if digits.isEmpty || digits.any (!·.isDigit) then none
  else
    let n := digits.foldl (fun n c => 10 * n + (c.toNat - '0'.toNat)) 0
    if n < 0x10000000000000000 then some n else none

def indentOf (arguments : List Argument) : Except Rejection Indent :=
  match Argument.valueOf .indent arguments with
  | none => .ok (if Argument.has .tabs arguments then .tabs else .usual)
  | some text =>
    if Argument.has .tabs arguments then .error .indentWithTabs
    else
      match number? text with
      | some width => .ok (.spaces width)
      | none => .error (.invalidIndent text)

/-- The command with a name and arguments. -/
def commandOf (verb : Verb) (arguments : List Argument) : Except Rejection Command := do
  if !(arguments.filterMap (·.switch?)).Nodup then .error .repeated
  let indent ← indentOf arguments
  let output := Argument.valueOf .output arguments
  match arguments.filterMap (·.file?) with
  | [path] =>
    let source := Source.ofArgument path
    match verb with
    | .tokenize => .ok (.tokenize source)
    | .check => .ok (.check source)
    | .format =>
      if Argument.has .check arguments then .ok (.checkFormat source indent)
      else .ok (.format source output indent)
    | .toJson =>
      .ok (.toJson source output (if Argument.has .compact arguments then .compact else .pretty))
    | .ofJson => .ok (.ofJson source output indent)
  | paths => .error (.notOneFile paths.length)

/-- Whether the first argument asks for the version. -/
def asksVersion (arg : String) : Bool :=
  arg = "--version" ||
    match arg.toList with
    | '-' :: 'V' :: _ => true
    | _ => false

/-- What arguments ask for. -/
def Request.ofArguments : List String → Except Rejection Request
  | [] => .error .noCommand
  | first :: rest =>
    if asksVersion first then .ok .version
    else
      match Verb.ofText? first with
      | none => .error (.unknownCommand first)
      | some verb => do
        let arguments ← takeAll verb.switches rest
        let command ← commandOf verb arguments
        .ok (.command command)

end SandboxProfile.CommandLine
