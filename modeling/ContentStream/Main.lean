import ContentStream.Command

/-!
# The program

Reads the file that the command line names, and prints the response.
-/

namespace ContentStream.Main

def readFiles (words : List String) : IO Files := do
  let mut found : List (String × File) := []
  for word in words do
    try
      let content ← IO.FS.readBinFile word
      found := (word, File.bytes content.data.toList) :: found
    catch _ =>
      pure ()
  let files := found
  return fun name => files.lookup name

end ContentStream.Main

def main (words : List String) : IO UInt32 := do
  let files ← ContentStream.Main.readFiles words
  let response := ContentStream.Command.respond files words
  let output ← IO.getStdout
  output.write response.output.toByteArray
  output.flush
  IO.eprint response.errors
  return response.exitCode.toUInt32
