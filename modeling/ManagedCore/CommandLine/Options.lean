import ManagedCore.Word

/-!
# Command-line options

The demonstration takes four numbers and a verbosity. A number follows its option as the next
argument or after an equals sign; it may have a plus sign in front, must fit a word, and may be
given once. Arguments are read from left to right, and the first one that asks for help or for the
version, or that is not understood, decides.
-/

namespace ManagedCore.CommandLine

/-- The options that take a number. -/
inductive Setting where
  | threads
  | depth
  | stackSize
  | keys
  deriving DecidableEq

/-- What the command line says. -/
structure Options where
  threads : Option Nat
  depth : Option Nat
  stackSize : Option Nat
  keys : Option Nat
  /-- How often more messages are asked for. -/
  verbosity : Nat
  deriving DecidableEq

/-- Why the arguments are not read to their end. -/
inductive Stop where
  | help
  | version
  | invalid
  deriving DecidableEq

/-- Nothing said yet. -/
def Options.unset : Options where
  threads := none
  depth := none
  stackSize := none
  keys := none
  verbosity := 0

/-- The option of a name. -/
def Setting.ofName : String → Option Setting
  | "threads" => some .threads
  | "depth" => some .depth
  | "stack-size" => some .stackSize
  | "keys" => some .keys
  | _ => none

/-- The number that a text of decimal digits denotes. -/
def readDigits (digits : List Char) : Nat :=
  digits.foldl (fun n c => 10 * n + (c.toNat - '0'.toNat)) 0

/-- A size: decimal digits, at least one, after an optional plus sign. It must fit a word. -/
def readSize (text : String) : Option Nat :=
  let digits := match text.toList with
    | '+' :: digits => digits
    | digits => digits
  if digits.isEmpty || !digits.all Char.isDigit then none
  else if readDigits digits < wordLimit then some (readDigits digits)
  else none

example : readSize "+007" = some 7 ∧ readSize "" = none ∧ readSize "-1" = none := by decide +kernel

/-- Writes a number into a place that is still free. -/
def occupy (place : Option Nat) (text : String) : Except Stop (Option Nat) :=
  match place, readSize text with
  | none, some size => .ok (some size)
  | _, _ => .error .invalid

/-- Takes the text given for an option. -/
def Options.assign (options : Options) (setting : Setting) (text : String) :
    Except Stop Options :=
  match setting with
  | .threads => (fun n => { options with threads := n }) <$> occupy options.threads text
  | .depth => (fun n => { options with depth := n }) <$> occupy options.depth text
  | .stackSize => (fun n => { options with stackSize := n }) <$> occupy options.stackSize text
  | .keys => (fun n => { options with keys := n }) <$> occupy options.keys text

/-- Reads the letters behind a single dash. -/
def readLetters (options : Options) : List Char → Except Stop Options
  | [] => .ok options
  | 'v' :: rest => readLetters { options with verbosity := options.verbosity + 1 } rest
  | 'h' :: _ => .error .help
  | 'V' :: _ => .error .version
  | _ :: _ => .error .invalid

/-- What one argument is on its own. -/
inductive Argument where
  /-- An option whose number is the next argument. -/
  | awaiting (setting : Setting)
  /-- An option with the text behind its equals sign. -/
  | given (setting : Setting) (text : String)
  /-- The letters behind a single dash. -/
  | letters (letters : List Char)
  /-- Two dashes alone: what follows would not be options. -/
  | separator
  | unknown

/-- Tells what an argument behind two dashes is, from its name and the text given with it. -/
def Argument.named (name : String) (text : Option String) : Argument :=
  match Setting.ofName name, text with
  | some setting, none => .awaiting setting
  | some setting, some text => .given setting text
  | none, none =>
    match name with
    | "verbose" => .letters ['v']
    | "help" => .letters ['h']
    | "version" => .letters ['V']
    | _ => .unknown
  | none, some _ => .unknown

/-- Tells what an argument is. -/
def Argument.ofText (text : String) : Argument :=
  match text.toList with
  | ['-', '-'] => .separator
  | '-' :: '-' :: body =>
    let name := String.ofList (body.takeWhile (· != '='))
    match body.dropWhile (· != '=') with
    | '=' :: value => .named name (some (String.ofList value))
    | _ => .named name none
  | '-' :: first :: rest => .letters (first :: rest)
  | _ => .unknown

/-- Whether a text cannot be the number of the option before it. -/
def startsWithDash (text : String) : Bool :=
  match text.toList with
  | '-' :: _ => true
  | _ => false

/-- Reads arguments on top of what was said before. Nothing may follow the separator. -/
def readArguments (options : Options) : List String → Except Stop Options
  | [] => .ok options
  | text :: rest =>
    match Argument.ofText text, rest with
    | .given setting text, rest => options.assign setting text >>= (readArguments · rest)
    | .letters letters, rest => readLetters options letters >>= (readArguments · rest)
    | .separator, [] => .ok options
    | .awaiting setting, text :: rest =>
      if startsWithDash text then .error .invalid
      else options.assign setting text >>= (readArguments · rest)
    | _, _ => .error .invalid

end ManagedCore.CommandLine
