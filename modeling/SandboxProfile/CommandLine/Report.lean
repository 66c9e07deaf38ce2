import SandboxProfile.CommandLine.Arguments
import SandboxProfile.Layout.Format
import SandboxProfile.Text.Utf8
import SandboxProfile.Wire.Decoding

/-!
# Carrying out commands

A command takes the bytes of its source to a report: what is printed, what is written to a file, and
whether it failed. Nothing is written to a file by a command that fails.
-/

namespace SandboxProfile.CommandLine

/-- Why a command failed. -/
inductive Failure where
  /-- The system's message on a file or stream. -/
  | system (name message : String)
  | tooLarge (name : String) (size limit : Nat)
  /-- So many errors in a text, all of them already reported. -/
  | errors (name : String) (count : Nat)
  | conversion (refusal : Wire.Profile.Refusal)
  | notFormatted (name : String)
deriving DecidableEq, Repr

def Failure.message : Failure → String
  | system name message => s!"I/O error for '{name}': {message}"
  | tooLarge name size limit =>
    s!"File '{name}' is too large ({size} bytes). Maximum allowed: {limit} bytes " ++
      s!"({limit / 1048576} MB)"
  | errors name count => s!"{name}: {count} error(s) found"
  | conversion refusal => s!"JSON conversion error: {refusal.message}"
  | notFormatted name => s!"File '{name}' is not formatted"

/-- What came of a command. -/
structure Report where
  /-- The text printed as the result. -/
  output : String
  diagnostics : List Diagnostic
  /-- The file to be written, and its text. -/
  save? : Option (String × String)
  failure? : Option Failure
deriving DecidableEq, Repr

namespace Report

def failed (failure : Failure) : Report := ⟨"", [], none, some failure⟩

/-- The same report when its file could not be written. -/
def unsaved (r : Report) (path message : String) : Report :=
  ⟨r.output, r.diagnostics, none, some (.system path message)⟩

/-- The text printed for the eye of the user. -/
def complaints (r : Report) : String :=
  String.join (r.diagnostics.map (·.display ++ "\n")) ++
    (r.failure?.map fun f => s!"Error: {f.message}\n").getD ""

def exitCode (r : Report) : Nat := if r.failure?.isSome then 1 else 0

/-- A result that is printed, or written to a file if one is given. -/
def result (text : String) (diagnostics : List Diagnostic) : Option String → Report
  | none => ⟨text, diagnostics, none, none⟩
  | some path => ⟨"", diagnostics, some (path, text), none⟩

end Report

/-! ### Sizes -/

/-- How many bytes a source may have where nothing else is set. -/
def usualLimit : Nat := 1024 * 1024 * 1024

/-- The limit that a setting asks for; one that is no number counts for nothing. -/
def limitOf (setting : Option String) : Nat := (setting.bind number?).getD usualLimit

/-- The size that is told of a source beyond the limit. No more than one byte beyond it is read of
the standard input. -/
def Source.sizeBeyond (limit size : Nat) : Source → Nat
  | stdin => limit + 1
  | file _ => size

/-- The bytes of a source that is small enough. -/
def Source.checked (source : Source) (limit : Nat) (bytes : List UInt8) :
    Except Failure (List UInt8) :=
  if limit < bytes.length then
    .error (.tooLarge source.name (source.sizeBeyond limit bytes.length) limit)
  else .ok bytes

/-! ### Commands -/

/-- The failure of a text with errors. -/
def failureOf (name : String) (diagnostics : List Diagnostic) : Option Failure :=
  match diagnostics.countP (·.isError) with
  | 0 => none
  | count => some (.errors name count)

/-- A text with a line feed in place of each carriage return and line feed. -/
def plainLineEnds : List Char → List Char
  | '\r' :: '\n' :: cs => '\n' :: plainLineEnds cs
  | c :: cs => c :: plainLineEnds cs
  | [] => []

/-- The summary of a profile, a line for each kind of declaration. -/
def summary (p : Profile) : String :=
  let version := (p.version.map fun v => Integer.display v.number).getD "(none)"
  let debug := (p.debug.map fun d => s!"  Debug: {d.action.text}\n").getD ""
  s!"  Version: {version}\n" ++ debug ++ s!"  Imports: {p.imports.length}\n" ++
    s!"  Definitions: {p.definitions.length}\n" ++ s!"  Rules: {p.rules.length}\n"

def reportTokens (name text : String) : Report :=
  let (tokens, diagnostics) := SandboxProfile.tokenize text
  ⟨String.join (tokens.map (·.display ++ "\n")), diagnostics, none, failureOf name diagnostics⟩

def reportCheck (name text : String) : Report :=
  let outcome := Profile.ofText text
  match failureOf name outcome.diagnostics with
  | some failure => ⟨s!"✗ {name}\n", outcome.diagnostics, none, some failure⟩
  | none => ⟨s!"✓ {name}\n" ++ summary outcome.profile, outcome.diagnostics, none, none⟩

def reportFormat (name : String) (output : Option String) (indent : Indent) (text : String) :
    Report :=
  let (formatted, diagnostics) := Profile.format indent text
  match failureOf name diagnostics with
  | some failure => ⟨"", diagnostics, none, some failure⟩
  | none => .result formatted diagnostics output

def reportCheckFormat (name : String) (indent : Indent) (text : String) : Report :=
  let (formatted, diagnostics) := Profile.format indent text
  match failureOf name diagnostics with
  | some failure => ⟨"", diagnostics, none, some failure⟩
  | none =>
    if plainLineEnds text.toList = formatted.toList then
      ⟨s!"{name} is formatted\n", diagnostics, none, none⟩
    else ⟨"", diagnostics, none, some (.notFormatted name)⟩

def reportToJson (name : String) (output : Option String) (style : Wire.Style) (text : String) :
    Report :=
  let outcome := Profile.ofText text
  match failureOf name outcome.diagnostics with
  | some failure => ⟨"", outcome.diagnostics, none, some failure⟩
  | none =>
    .result ((Wire.Profile.ofTree outcome.profile).print style ++ "\n") outcome.diagnostics output

def reportOfJson (output : Option String) (indent : Indent) (text : String) : Report :=
  match Wire.Profile.ofText text with
  | .error refusal => .failed (.conversion refusal)
  | .ok p => .result (p.source indent) [] output

/-- The report on a command with the text of its source. -/
def Command.reportOn (text : String) : Command → Report
  | tokenize s => reportTokens s.name text
  | check s => reportCheck s.name text
  | format s output indent => reportFormat s.name output indent text
  | checkFormat s indent => reportCheckFormat s.name indent text
  | toJson s output style => reportToJson s.name output style text
  | ofJson _ output indent => reportOfJson output indent text

/-- The report on a command, given the bytes of its source or why there are none. -/
def Command.report (c : Command) (limit : Nat) (input : Except Failure (List UInt8)) : Report :=
  match input.bind (c.source.checked limit) with
  | .error failure => .failed failure
  | .ok bytes => c.reportOn (Utf8.decode bytes)

end SandboxProfile.CommandLine
