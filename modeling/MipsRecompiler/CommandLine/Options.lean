import MipsRecompiler.Engine.Recompiler

/-!
# Command line options

The arguments are read one after another. Reading stops at the first one that is refused, or
that asks for help or for the version; whether the options go together is decided at the end.
-/

set_option autoImplicit false

namespace MipsRecompiler.CommandLine

/-! ## Numbers -/

def digitValue? (digit : Char) : Option Nat :=
  if '0' ≤ digit ∧ digit ≤ '9' then some (digit.toNat - '0'.toNat)
  else if 'a' ≤ digit ∧ digit ≤ 'f' then some (digit.toNat - 'a'.toNat + 10)
  else if 'A' ≤ digit ∧ digit ≤ 'F' then some (digit.toNat - 'A'.toNat + 10)
  else none

def readDigits? (base : Nat) : Nat → List Char → Option Nat
  | value, [] => some value
  | value, digit :: digits =>
    match digitValue? digit with
    | some next => if next < base then readDigits? base (base * value + next) digits else none
    | none => none

/-- A number of at most `width` bits. A plus sign may stand before the digits. -/
def readNumber? (base width : Nat) (text : List Char) : Option Nat :=
  let digits := match text with
    | '+' :: rest => rest
    | _ => text
  if digits.isEmpty then none
  else (readDigits? base 0 digits).filter (· >>> width = 0)

/-- A physical address: decimal, or hexadecimal behind its mark. -/
def readAddress? (text : List Char) : Option Word :=
  let value := match text with
    | '0' :: 'x' :: digits | '0' :: 'X' :: digits => readNumber? 16 32 digits
    | _ => readNumber? 10 32 text
  value.map (BitVec.ofNat 32)

/-! ## Options -/

inductive OptionName where
  | base
  | steps
  | compare
  | dump
  | platform
  | cacheSize
  | noIdleLoops
  | logCompilations
  | verbose
  | quiet
  | help
  | version
  deriving DecidableEq, Repr, Inhabited

namespace OptionName

/-- The long names, as they are written behind two dashes. -/
instance : Enumeration OptionName where
  all := [.base, .steps, .compare, .dump, .platform, .cacheSize, .noIdleLoops, .logCompilations,
    .verbose, .quiet, .help, .version]
  name
    | .base => "base"
    | .steps => "steps"
    | .compare => "compare"
    | .dump => "dump"
    | .platform => "platform"
    | .cacheSize => "cache-size"
    | .noIdleLoops => "no-idle-loops"
    | .logCompilations => "log-compilations"
    | .verbose => "verbose"
    | .quiet => "quiet"
    | .help => "help"
    | .version => "version"
  mem_all option := by cases option <;> decide

def ofLetter? : Char → Option OptionName
  | 'v' => some .verbose
  | 'q' => some .quiet
  | 'h' => some .help
  | 'V' => some .version
  | _ => none

def takesValue : OptionName → Bool
  | .base | .steps | .platform | .cacheSize => true
  | _ => false

end OptionName

structure Verbosity where
  raised : Nat := 0
  quiet : Bool := false
  deriving DecidableEq, Repr, Inhabited

def Verbosity.level (verbosity : Verbosity) : String :=
  if verbosity.quiet then "error"
  else
    match verbosity.raised with
    | 0 => "warn"
    | 1 => "debug"
    | _ => "trace"

structure Options where
  image : String
  /-- The physical address at which the program is loaded and started. -/
  base : Word := 0
  /-- The number of blocks after which to stop. -/
  steps : Nat := 1000
  compare : Bool := false
  dump : Bool := false
  settings : Settings := {}
  verbosity : Verbosity := {}
  deriving DecidableEq, Repr, Inhabited

inductive Stop where
  | refused
  | help
  | version
  deriving DecidableEq, Repr, Inhabited

structure Progress where
  options : Options := { image := "" }
  /-- The options that were given, most of which cannot be given again. -/
  seen : List OptionName := []
  hasImage : Bool := false
  /-- The option whose value comes next. -/
  pending : Option OptionName := none
  filesOnly : Bool := false
  deriving Repr, Inhabited

namespace Progress

/-- Notes an option, which only the one for more messages can repeat. -/
def note (progress : Progress) (option : OptionName) : Except Stop Progress :=
  if option ≠ .verbose ∧ progress.seen.contains option then .error .refused
  else .ok { progress with seen := option :: progress.seen }

def edit (progress : Progress) (change : Options → Options) : Progress :=
  { progress with options := change progress.options }

def editSettings (progress : Progress) (change : Settings → Settings) : Progress :=
  progress.edit fun options => { options with settings := change options.settings }

/-- Reads an option on its own. A value, if one belongs to it, is the next argument. -/
def readOption (progress : Progress) (option : OptionName) : Except Stop Progress := do
  if option.takesValue then return { progress with pending := some option }
  let noted ← progress.note option
  match option with
  | .help => throw .help
  | .version => throw .version
  | .compare => return noted.edit fun options => { options with compare := true }
  | .dump => return noted.edit fun options => { options with dump := true }
  | .noIdleLoops =>
    return noted.editSettings fun settings => { settings with idleLoopDetection := false }
  | .logCompilations =>
    return noted.editSettings fun settings => { settings with logCompilations := true }
  | .verbose =>
    return noted.edit fun options =>
      let verbosity := options.verbosity
      { options with verbosity := { verbosity with raised := verbosity.raised + 1 } }
  | .quiet =>
    return noted.edit fun options =>
      { options with verbosity := { options.verbosity with quiet := true } }
  | .base | .steps | .platform | .cacheSize => return noted

def readValue (progress : Progress) (option : OptionName) (text : String) :
    Except Stop Progress := do
  let progress := { ← progress.note option with pending := none }
  let required {α : Type} (value : Option α) : Except Stop α :=
    match value with
    | some value => .ok value
    | none => .error .refused
  match option with
  | .base =>
    let base ← required (readAddress? text.toList)
    return progress.edit fun options => { options with base }
  | .steps =>
    let steps ← required (readNumber? 10 64 text.toList)
    return progress.edit fun options => { options with steps }
  | .cacheSize =>
    let codeCacheSize ← required (readNumber? 10 64 text.toList)
    return progress.editSettings fun settings => { settings with codeCacheSize }
  | .platform =>
    let platform ← required (PlatformKind.parse text).toOption
    return progress.editSettings fun settings => { settings with platform }
  | _ => throw .refused

def readLetters (progress : Progress) : List Char → Except Stop Progress
  | [] => .ok progress
  | letter :: letters => do
    match OptionName.ofLetter? letter with
    | some option => readLetters (← progress.readOption option) letters
    | none => throw .refused

def readFile (progress : Progress) (name : String) : Except Stop Progress :=
  if progress.hasImage then .error .refused
  else .ok { progress.edit fun options => { options with image := name } with hasImage := true }

/-- Reads a long option, whose value may stand behind an equals sign. -/
def readLong (progress : Progress) (text : List Char) : Except Stop Progress :=
  let name := String.ofList (text.takeWhile (· ≠ '='))
  match (Enumeration.ofName? name : Option OptionName), text.dropWhile (· ≠ '=') with
  | none, _ => .error .refused
  | some option, [] => progress.readOption option
  | some option, _ :: value =>
    if option.takesValue then progress.readValue option (String.ofList value)
    else .error .refused

/-- Reads one argument. A single dash is a value or a file, two dashes end the options. -/
def readArgument (progress : Progress) (argument : String) : Except Stop Progress :=
  if progress.filesOnly then progress.readFile argument
  else
    match progress.pending, argument.toList with
    | some option, ['-'] => progress.readValue option argument
    | some _, '-' :: _ => .error .refused
    | some option, _ => progress.readValue option argument
    | none, ['-'] => progress.readFile argument
    | none, ['-', '-'] => .ok { progress with filesOnly := true }
    | none, '-' :: '-' :: text => progress.readLong text
    | none, '-' :: letters => progress.readLetters letters
    | none, _ => progress.readFile argument

/-- The options at the end of the arguments. Asking for more messages and for none do not go
together. -/
def finish (progress : Progress) : Except Stop Options :=
  let verbosity := progress.options.verbosity
  let contradicts := verbosity.quiet && verbosity.raised ≠ 0
  if progress.pending.isSome || !progress.hasImage || contradicts then .error .refused
  else .ok progress.options

end Progress

def Options.ofArguments (arguments : List String) : Except Stop Options := do
  let progress ← arguments.foldlM Progress.readArgument {}
  progress.finish

end MipsRecompiler.CommandLine
