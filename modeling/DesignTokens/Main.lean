/-
The program: reads files, standard output and standard error for a request.
-/
import DesignTokens.CommandLine.Report

namespace DesignTokens

/-- The system's code for a path that goes on behind a file. -/
def notDirectoryCode : UInt32 := 20

/-- The reading failure of a file system error. Its code may be given negated. -/
def ReadFailure.ofError : IO.Error → ReadFailure
  | .noFileOrDirectory _ _ _ => .notFound
  | .inappropriateType _ code _ =>
    if code = notDirectoryCode || -code = notDirectoryCode then .notDirectory else .isDirectory
  | error => .other (toString error)

def readTextFile (path : String) : IO (Except ReadFailure String) := do
  try
    let bytes ← IO.FS.readBinFile path
    match String.fromUTF8? bytes with
    | some text => return .ok text
    | none => return .error .notText
  catch error => return .error (.ofError error)

def runProgram (arguments : List String) : IO UInt32 := do
  match Request.ofArguments arguments with
  | .error _ =>
    (← IO.getStderr).putStrLn "error: the arguments are not a request"
    return usageExitCode
  | .ok request =>
    let report ← request.run readTextFile
    (← IO.getStdout).putStr report.output
    for notice in report.notices do
      (← IO.getStderr).putStrLn (" WARN " ++ notice.message)
    match report.error with
    | none => pure ()
    | some error =>
      for line in error.lines do
        (← IO.getStderr).putStrLn line
    return report.exitCode

end DesignTokens

def main (arguments : List String) : IO UInt32 :=
  DesignTokens.runProgram arguments
