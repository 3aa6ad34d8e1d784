import CssSort.Json.Token
import CssSort.Text.Quoted

/-! Why a run can fail, and how that is said. -/
namespace CssSort

/-- Why a file or the standard input cannot be read as text. -/
inductive FileFault where
  | missing
  | isDirectory
  | notDirectory
  | nameTooLong
  | notUtf8
  | other (description : String)
  deriving DecidableEq, Repr

def FileFault.message : FileFault → String
  | missing => "No such file or directory (os error 2)"
  | isDirectory => "Is a directory (os error 21)"
  | notDirectory => "Not a directory (os error 20)"
  | nameTooLong => "File name too long (os error 36)"
  | notUtf8 => "stream did not contain valid UTF-8"
  | other description => description

inductive Error where
  | emptyInput
  | settings (fault : Json.Fault)
  | unsorted (paths : List String)
  | file (fault : FileFault)
  | bufferFull
  deriving DecidableEq, Repr

/-- What follows the colon of `Invalid config` is left to whoever reports it. -/
def Error.message : Error → String
  | emptyInput => "Input is empty"
  | settings _ => "Invalid config: "
  | unsorted paths => toString paths.length ++ " not alphabetized: " ++ Text.quoteList paths
  | file fault => fault.message
  | bufferFull => "failed to write whole buffer"

end CssSort
