import HeaderBindings.CommandLine.Run

/-! The program: its arguments, files and streams. -/

namespace HeaderBindings.CommandLine

/-- The host that keeps files on disk. -/
def disk : Host IO where
  read? path := do
    try return some (← IO.FS.readFile (String.ofList path)).toList
    catch _ => return none
  makeDirectory path := do
    try
      IO.FS.createDirAll (String.ofList path)
      return true
    catch _ => return false
  write path content := do
    try
      IO.FS.writeFile (String.ofList path) (String.ofList content)
      return true
    catch _ => return false

end HeaderBindings.CommandLine

open HeaderBindings CommandLine in
/-- Runs the program and exits with the code of its outcome. -/
def main (args : List String) : IO UInt32 := do
  let outcome ← run disk (args.map String.toList)
  IO.print (String.ofList outcome.output)
  if let some complaint := outcome.complaint? then IO.eprintln (String.ofList complaint)
  return outcome.exitCode.toUInt32
