import PipeExpr.CommandLine.Answer

/-!
The command line: reads the arguments, the file and the environment, and prints the response.
-/
namespace PipeExpr.CommandLine

def elapsedText (micros : Nat) : String :=
  let hundredths := (micros + 5) / 10
  let gap := if hundredths % 100 < 10 then "0" else ""
  toString (hundredths / 100) ++ "." ++ gap ++ toString (hundredths % 100) ++ " ms"

def contents? (path : String) : IO (Option String) := do
  try
    return some (← IO.FS.readFile path)
  catch _ =>
    return none

def timedResponse (invocation : Invocation) (file : Option String)
    (environment : List (String × String)) : IO Response := do
  let start ← IO.monoNanosNow
  let answer := invocation.answer (fun _ => file) fun name => environment.lookup name
  let draft := Response.ofAnswer "" invocation.command answer
  if draft.code = 0 then
    let stop ← IO.monoNanosNow
    return Response.ofAnswer (elapsedText ((stop - start) / 1000)) invocation.command answer
  else return draft

end PipeExpr.CommandLine

open PipeExpr CommandLine

def main (arguments : List String) : IO UInt32 := do
  let response ← match Invocation.ofArguments arguments with
    | .error stop => pure (Response.ofStop stop)
    | .ok invocation => do
      let file ← match invocation.config with
        | some path => contents? path
        | none => pure none
      let mut environment := []
      for name in [Settings.depthVariable, Settings.cacheVariable] do
        if let some value ← IO.getEnv name then
          environment := (name, value) :: environment
      timedResponse invocation file environment
  (← IO.getStdout).putStr response.output
  (← IO.getStderr).putStr response.error
  return response.code.toUInt32
