/-! The words behind the program's name. Flags and files may be mixed, a flag's
value follows it as the next word or behind an equals sign, and everything behind
two dashes is a file. A word that asks for a notice ends the reading, as does the
first word that is misused. -/
namespace CssSort

inductive Flag where
  | input
  | descending
  | config
  | write
  | check
  | help
  | version
  deriving DecidableEq, Repr

namespace Flag

def all : List Flag :=
  [input, descending, config, write, check, help, version]

def name : Flag → String
  | input => "--input"
  | descending => "--descending"
  | config => "--config"
  | write => "--write"
  | check => "--check"
  | help => "--help"
  | version => "--version"

def ofName? (name : String) : Option Flag :=
  all.find? (·.name == name)

/-- The letter that stands for a flag behind a single dash. -/
def letter? : Flag → Option Char
  | help => some 'h'
  | version => some 'V'
  | _ => none

/-- The flag that the first letter of a word stands for. No word needs a second
letter, since every flag with a letter ends the reading. -/
def ofLetter? (word : String) : Option Flag :=
  match word.toList with
  | '-' :: letter :: _ => all.find? (·.letter? == some letter)
  | _ => none

def takesValue (flag : Flag) : Bool :=
  flag == input || flag == config

def purpose : Flag → String
  | input => "Stylesheet text to alphabetize"
  | descending => "Sort Z to A"
  | config => "JSON file with options"
  | write => "Rewrite files in place"
  | check => "Fail if anything is not alphabetized, print nothing"
  | help => "Print help"
  | version => "Print version"

end Flag

inductive UsageFault where
  | unknownFlag (word : String)
  | repeatedFlag (flag : Flag)
  | missingValue (flag : Flag)
  | unexpectedValue (flag : Flag)
  | emptyPath
  | inputWithFiles
  | checkWithWrite
  | writeWithoutFiles
  deriving DecidableEq, Repr

def UsageFault.message : UsageFault → String
  | unknownFlag word => "unexpected argument '" ++ word ++ "' found"
  | repeatedFlag flag => "'" ++ flag.name ++ "' cannot be used multiple times"
  | missingValue flag => "a value is required for '" ++ flag.name ++ "' but none was supplied"
  | unexpectedValue flag => "unexpected value for '" ++ flag.name ++ "' found"
  | emptyPath => "a path cannot be empty"
  | inputWithFiles => "'--input' cannot be used with files"
  | checkWithWrite => "'--check' cannot be used with '--write'"
  | writeWithoutFiles => "'--write' needs files"

/-- What the program tells about itself. -/
inductive Notice where
  | help
  | version
  deriving DecidableEq, Repr

def Notice.text : Notice → String
  | help =>
    "Usage: hel-css-alphabetizer [OPTIONS] [FILES]...\n" ++
      String.join (Flag.all.map fun flag => "  " ++ flag.name ++ "  " ++ flag.purpose ++ "\n")
  | version => "hel-css-alphabetizer 0.1.0\n"

/-- Why words come to an end before there is anything to do. -/
inductive Halt where
  | misuse (fault : UsageFault)
  | notice (topic : Notice)
  deriving DecidableEq, Repr

/-- What one or two words ask for. -/
inductive Request where
  | file (path : String)
  | value (flag : Flag) (text : String)
  | switch (flag : Flag)
  /-- Words that ask for nothing. -/
  | refused (fault : UsageFault)
  deriving DecidableEq, Repr

namespace Request

/-- A single dash is an ordinary word. -/
def isFlagWord (word : String) : Bool :=
  word.toList.head? == some '-' && word != "-"

/-- The name of a flag and the value behind its first equals sign. -/
def splitFlag (word : String) : String × Option String :=
  let name := String.ofList (word.toList.takeWhile (· != '='))
  match word.toList.dropWhile (· != '=') with
  | [] => (name, none)
  | _ :: text => (name, some (String.ofList text))

/-- Groups the words into requests, up to the first that are refused. A value in
a word of its own must not look like a flag. -/
def ofWords : List String → List Request
  | [] => []
  | word :: words =>
    if word = "--" then words.map file
    else if !isFlagWord word then file word :: ofWords words
    else
      match Flag.ofLetter? word, Flag.ofName? (splitFlag word).1, (splitFlag word).2 with
      | some flag, _, _ => switch flag :: ofWords words
      | none, none, _ => [refused (.unknownFlag word)]
      | none, some flag, some text =>
        if flag.takesValue then value flag text :: ofWords words
        else [refused (.unexpectedValue flag)]
      | none, some flag, none =>
        if flag.takesValue then
          match words with
          | [] => [refused (.missingValue flag)]
          | text :: others =>
            if isFlagWord text then [refused (.missingValue flag)]
            else value flag text :: ofWords others
        else switch flag :: ofWords words

end Request

/-- All requests together. -/
structure Arguments where
  input? : Option String := none
  files : List String := []
  descending : Bool := false
  config? : Option String := none
  write : Bool := false
  check : Bool := false
  deriving DecidableEq, Repr

namespace Arguments

/-- A flag is given once at most. A path must not be empty, a text may. -/
def add (arguments : Arguments) : Request → Except Halt Arguments
  | .file path =>
    if path.isEmpty then .error (.misuse .emptyPath)
    else .ok { arguments with files := arguments.files ++ [path] }
  | .value .input text =>
    if arguments.input?.isSome then .error (.misuse (.repeatedFlag .input))
    else .ok { arguments with input? := some text }
  | .value .config path =>
    if arguments.config?.isSome then .error (.misuse (.repeatedFlag .config))
    else if path.isEmpty then .error (.misuse .emptyPath)
    else .ok { arguments with config? := some path }
  | .value flag _ => .error (.misuse (.unexpectedValue flag))
  | .switch .descending =>
    if arguments.descending then .error (.misuse (.repeatedFlag .descending))
    else .ok { arguments with descending := true }
  | .switch .write =>
    if arguments.write then .error (.misuse (.repeatedFlag .write))
    else .ok { arguments with write := true }
  | .switch .check =>
    if arguments.check then .error (.misuse (.repeatedFlag .check))
    else .ok { arguments with check := true }
  | .switch .help => .error (.notice .help)
  | .switch .version => .error (.notice .version)
  | .switch flag => .error (.misuse (.missingValue flag))
  | .refused fault => .error (.misuse fault)

/-- Requests count in their order, so what stands behind a halt has no say. -/
def ofWords (words : List String) : Except Halt Arguments :=
  (Request.ofWords words).foldlM add {}

end Arguments
end CssSort
