import Rollout.Command
import Rollout.Path
/-!
What the arguments of the program ask for.  Options come before the command, each with a value: attached to its letter,
after an equals sign, or as the next argument.  A value of its own and a service do not begin with a dash, unless they
are a dash alone; after `--` a service may.  The first argument that does not fit decides.

An argument is first sorted by its shape alone (`Argument`): a word, two dashes, an option by name or an option by
letter.  `Invocation.read` then goes through the arguments with the options so far and with the option that still waits
for its value, up to the command, and what follows the command is read by the command.  A request for help counts
wherever it stands before the first argument that does not fit.
-/
namespace Rollout

inductive Argument where
  /-- A word of its own, such as a command or a value. -/
  | plain (text : String)
  /-- Two dashes, after which nothing is an option. -/
  | terminator
  | long (name : String) (value : Option String)
  | short (letter : Char) (value : Option String)
deriving DecidableEq, Repr

namespace Argument

def ofLong (name : List Char) : List Char → Argument
  | [] => .long (String.ofList name.reverse) none
  | c :: rest =>
    if c = '=' then .long (String.ofList name.reverse) (some (String.ofList rest)) else ofLong (c :: name) rest

/-- What is attached to the letter of an option.  An equals sign before it does not belong to it. -/
def attached? : List Char → Option String
  | [] => none
  | '=' :: value => some (String.ofList value)
  | value => some (String.ofList value)

def ofText (text : String) : Argument :=
  match text.toList with
  | ['-', '-'] => .terminator
  | '-' :: '-' :: name => ofLong [] name
  | '-' :: letter :: rest => .short letter (attached? rest)
  | _ => .plain text

def asksForHelp : Argument → Bool
  | .long "help" none => true
  | .short 'h' _ => true
  | _ => false

end Argument

inductive Flag where
  | config
  | profile
  | parallel
deriving DecidableEq, Repr

namespace Flag

def ofName? : String → Option Flag
  | "config" => some config
  | "profile" => some profile
  | "parallel" => some parallel
  | _ => none

def ofLetter? : Char → Option Flag
  | 'c' => some config
  | 'p' => some profile
  | _ => none

end Flag

structure Invocation where
  config : Option Path
  /-- In the order in which they are given. -/
  profiles : List String
  parallel : Option Nat
  command : Command
deriving DecidableEq, Repr

namespace Invocation

inductive Stop where
  | help
  | misuse
deriving DecidableEq, Repr

/-! ## Values of options -/

def number? (text : String) : Option Nat :=
  let digits := match text.toList with
    | '+' :: digits => digits
    | digits => digits
  let n := digits.foldl (fun n c => 10 * n + (c.toNat - '0'.toNat)) 0
  if !digits.isEmpty && digits.all Char.isDigit && n < Nat.pow 2 64 then some n else none

structure Options where
  config : Option Path
  profiles : List String
  parallel : Option Nat

namespace Options

def none : Options := ⟨.none, [], .none⟩

/-- Takes one option up.  Only profiles can be given more than once, and a path cannot be empty. -/
def set (o : Options) (flag : Flag) (value : String) : Except Stop Options :=
  match flag with
  | .config =>
    if o.config.isSome || value.isEmpty then .error .misuse else .ok { o with config := some (Path.ofText value) }
  | .profile => .ok { o with profiles := o.profiles ++ [value] }
  | .parallel =>
    match o.parallel, number? value with
    | .none, some n => .ok { o with parallel := some n }
    | _, _ => .error .misuse

end Options

/-! ## Arguments in turn -/

def services (takes : Bool) : List String → Except Stop (List String)
  | [] => .ok []
  | text :: rest =>
    match Argument.ofText text with
    | .plain name => if takes then do return name :: (← services takes rest) else .error .misuse
    | .terminator => if takes || rest.isEmpty then .ok rest else .error .misuse
    | argument => .error (if argument.asksForHelp then .help else .misuse)

def readCommand (name : String) (rest : List String) : Except Stop Command := do
  match name with
  | "check" => let _ ← services false rest; return .check
  | "up" => let _ ← services false rest; return .plan .up
  | "down" => let _ ← services false rest; return .plan .down
  | "restart" =>
    match ← services true rest with
    | [] => .error .misuse
    | named => return .plan (.restart named)
  | "help" => .error .help
  | _ => .error .misuse

def flag? : Argument → Option (Flag × Option String)
  | .long name value => (Flag.ofName? name).map fun flag => (flag, value)
  | .short letter value => (Flag.ofLetter? letter).map fun flag => (flag, value)
  | _ => none

/-- Reads the options and the command after them.  `awaiting` is the option whose value is the next argument. -/
def read (o : Options) (awaiting : Option Flag) : List String → Except Stop Invocation
  | [] => .error .misuse
  | text :: rest =>
    let argument := Argument.ofText text
    match awaiting, argument with
    | some flag, .plain value =>
      match o.set flag value with
      | .ok o => read o none rest
      | .error stop => .error stop
    | none, .plain name => (readCommand name rest).map fun command => ⟨o.config, o.profiles, o.parallel, command⟩
    | some _, _ => .error .misuse
    | none, _ =>
      if argument.asksForHelp then .error .help
      else match flag? argument with
        | none => .error .misuse
        | some (flag, none) => read o (some flag) rest
        | some (flag, some value) =>
          match o.set flag value with
          | .ok o => read o none rest
          | .error stop => .error stop

def parse (args : List String) : Except Stop Invocation := read .none none args

end Invocation

end Rollout
