import SandboxProfile.CommandLine.Report

/-!
# The program

Gets at arguments, files and streams; what is done with them is decided elsewhere.
-/

namespace SandboxProfile.Program

open SandboxProfile.CommandLine

/-- The system's words for an error number, as far as they are known. -/
def wording (code : UInt32) (details : String) : String :=
  let text :=
    match code with
    | 2 => "No such file or directory"
    | 13 => "Permission denied"
    | 20 => "Not a directory"
    | 21 => "Is a directory"
    | _ => details
  s!"{text} (os error {code})"

def messageOf : IO.Error → String
  | .noFileOrDirectory _ code details | .interrupted _ code details
  | .permissionDenied _ code details | .inappropriateType _ code details
  | .invalidArgument _ code details | .resourceExhausted _ code details
  | .noSuchThing _ code details | .alreadyExists _ code details
  | .otherError code details | .resourceBusy code details | .resourceVanished code details
  | .unsupportedOperation code details | .hardwareFault code details
  | .unsatisfiedConstraints code details | .illegalOperation code details
  | .protocolError code details | .timeExpired code details => wording code details
  | e => toString e

/-- At most `count` bytes of a stream. -/
partial def readUpTo (count : Nat) (stream : IO.FS.Stream) (before : ByteArray) : IO ByteArray := do
  if before.size < count then
    let more ← stream.read (min (count - before.size) 65536).toUSize
    if more.isEmpty then return before
    readUpTo count stream (before ++ more)
  else return before

def load (source : Source) (limit : Nat) : IO (Except Failure (List UInt8)) := do
  try
    let bytes ←
      match source with
      | .stdin => readUpTo (limit + 1) (← IO.getStdin) ByteArray.empty
      | .file path => IO.FS.readBinFile path
    return .ok bytes.toList
  catch e => return .error (.system source.name (messageOf e))

/-- Writes the file of a report, if it has one. -/
def save (report : Report) : IO Report := do
  match report.save? with
  | none => return report
  | some (path, text) =>
    try
      IO.FS.writeFile path text
      return report
    catch e => return report.unsaved path (messageOf e)

def run (command : Command) : IO UInt32 := do
  let limit := limitOf (← IO.getEnv "SBPL_MAX_FILE_SIZE")
  let report ← save (command.report limit (← load command.source limit))
  IO.print report.output
  IO.eprint report.complaints
  return report.exitCode.toUInt32

end SandboxProfile.Program

def main (args : List String) : IO UInt32 := do
  match SandboxProfile.CommandLine.Request.ofArguments args with
  | .error rejection =>
    IO.eprintln s!"error: {rejection.message}"
    return 2
  | .ok .version =>
    IO.println SandboxProfile.CommandLine.programVersion
    return 0
  | .ok (.command command) => SandboxProfile.Program.run command
