import StraightLine.Source.Path
import StraightLine.Text.Quoted
import StraightLine.Text.Utf8

/-!
Files and their texts. Nothing is known about the files there are: a disk may hold any bytes behind a
path or none, whatever the directories on the way to it.
-/

namespace StraightLine

/-- Why a path has no text: the system refuses to open it, with a number and a reason, or there is
something wrong with its name or with the bytes found there. -/
inductive ReadError where
  | refused (number : Nat) (reason : String) (path : Path)
  | nullCharacter
  | undecodable (fault : Text.Utf8Fault)
  deriving DecidableEq, Repr

/-- The bytes at fault: the value of a single one, or the offsets of the first and the last. -/
def ReadError.whichBytes (fault : Text.Utf8Fault) : String :=
  if fault.stop = fault.start + 1 then
    "byte 0x" ++ String.ofList (Text.hexDigits 2 fault.first.toNat) ++ " in position " ++
      fault.start.repr
  else "bytes in position " ++ fault.start.repr ++ "-" ++ (fault.stop - 1).repr

def ReadError.message : ReadError → String
  | .refused number reason path =>
    "[Errno " ++ number.repr ++ "] " ++ reason ++ ": " ++ Text.quoted path.text
  | .nullCharacter => "embedded null byte"
  | .undecodable fault =>
    "'utf-8' codec can't decode " ++ whichBytes fault ++ ": " ++ fault.reason.message

/-- What opening each path leads to: the bytes of a file, or the reason why there are none. -/
structure Disk where
  bytes : Path → Except ReadError (List UInt8)

namespace Disk

/-- A disk without files. -/
def empty : Disk := ⟨fun path => .error (.refused 2 "No such file or directory" path)⟩

/-- The text of a file: its bytes decoded, and every line break a line feed. -/
def read (disk : Disk) (path : Path) : Except ReadError (List Char) := do
  let found ← disk.bytes path
  match Text.decodeUtf8 found with
  | .ok text => return Text.unifyBreaks text
  | .error fault => throw (.undecodable fault)

end Disk

end StraightLine
