import CheckCost.Text.Utf8

/-!
What a file holds as text. A file may not be there to read, its bytes may be no text, and every way to
end a line counts as a line feed.
-/
namespace CheckCost

inductive FileFault where
  | missing
  | isDirectory
  | notDirectory
  | nameTooLong
  | denied
  /-- The path holds the character NUL. -/
  | nul
  | other (code : Nat) (reason : String)
  deriving DecidableEq, Repr

namespace FileFault

def reason : FileFault → String
  | missing => "No such file or directory"
  | isDirectory => "Is a directory"
  | notDirectory => "Not a directory"
  | nameTooLong => "File name too long"
  | denied => "Permission denied"
  | nul => "embedded null byte"
  | other _ reason => reason

def code : FileFault → Nat
  | missing => 2
  | isDirectory => 21
  | notDirectory => 20
  | nameTooLong => 36
  | denied => 13
  | nul => 0
  | other code _ => code

/-- The fault that a number of the system stands for. -/
def ofCode (number : Nat) (reason : String) : FileFault :=
  ([missing, isDirectory, notDirectory, nameTooLong, denied].find? (·.code = number)).getD
    (other number reason)

end FileFault

abbrev FileContent := Except FileFault (List UInt8)

namespace FileText

/-- A carriage return ends a line, alone or before a line feed. -/
def unifyLineEnds : List Char → List Char
  | '\r' :: '\n' :: rest => '\n' :: unifyLineEnds rest
  | c :: rest => (if c = '\r' then '\n' else c) :: unifyLineEnds rest
  | [] => []

def ofBytes (bytes : List UInt8) : Except Text.Utf8.Fault (List Char) :=
  unifyLineEnds <$> Text.Utf8.decode bytes

end FileText

end CheckCost
