/-!
# Invocations

What the words of a command line ask for: to check a program, to list its code, to run it, or to
step through it. A word that begins with a hyphen is an option, a lone hyphen apart, and never the
value of another; behind the word `--` every word is the name of a file. The file of the settings
may be named before the task and behind it, and what is named behind the task counts.
-/

set_option autoImplicit false

namespace Stepwise

/-- What is to be done with a program. -/
inductive Task where
  | check
  | dump (asData : Bool)
  | run (budget tickMillis : Option Nat) (breakpoints : List Nat)
  | debug (into : Bool)
  deriving Repr, DecidableEq

/-- A task, the file of the program and the file of the settings. -/
structure Invocation where
  task : Task
  file : String
  config : Option String
  deriving Repr, DecidableEq

namespace Invocation

/-- The number that digits write. -/
def digits? (cs : List Char) : Option Nat :=
  if cs.isEmpty || !cs.all Char.isDigit then none
  else some (cs.foldl (fun n c => 10 * n + (c.toNat - '0'.toNat)) 0)

/-- A number up to a greatest one, written in digits; a plus sign may stand before them. -/
def number? (greatest : Nat) (word : String) : Option Nat :=
  let digits := match word.toList with
    | '+' :: rest => digits? rest
    | cs => digits? cs
  digits.filter (· ≤ greatest)

/-- A number whose place in the range is looked at after its sign, so that a zero may have a minus
sign. -/
def signedNumber? (greatest : Nat) (word : String) : Option Nat :=
  match word.toList with
  | '-' :: rest => (digits? rest).filter (· = 0)
  | _ => number? greatest word

/-- The greatest count of instructions or milliseconds. -/
def greatestCount : Nat := Nat.pow 2 64 - 1

/-- The greatest number of a line. -/
def greatestLine : Nat := Nat.pow 2 32 - 1

/-- What has been read of the words so far. -/
structure Reading where
  task : Option Task
  file : Option String
  /-- The file of the settings, as named before the task. -/
  outerConfig : Option String
  /-- The file of the settings, as named behind the task, or before it while there is none. -/
  config : Option String
  deriving Repr

namespace Reading

/-- Nothing read. -/
def none : Reading := ⟨.none, .none, .none, .none⟩

/-- The task that a word names. -/
def task? : String → Option Task
  | "check" => some .check
  | "dump" => some (.dump false)
  | "run" => some (.run .none .none [])
  | "debug" => some (.debug false)
  | _ => .none

/-- The reading with an option that stands alone. -/
def flag? (r : Reading) (name : String) : Option Reading :=
  match name, r.task with
  | "--json", some (.dump false) => some { r with task := some (.dump true) }
  | "--into", some (.debug false) => some { r with task := some (.debug true) }
  | _, _ => .none

/-- The reading with an option that takes a value. No file has an empty name. -/
def option? (r : Reading) (name value : String) : Option Reading :=
  match name, r.task with
  | "--config", _ =>
    if r.config.isSome || value.isEmpty then .none else some { r with config := some value }
  | "--budget", some (.run .none tick lines) =>
    (number? greatestCount value).map fun n => { r with task := some (.run (some n) tick lines) }
  | "--tick-ms", some (.run budget .none lines) =>
    (number? greatestCount value).map fun n => { r with task := some (.run budget (some n) lines) }
  | "--break", some (.run budget tick lines) =>
    (signedNumber? greatestLine value).map fun n =>
    { r with task := some (.run budget tick (lines ++ [n])) }
  | _, _ => .none

/-- The reading with the name of the file. There is one, behind the task. -/
def operand? (r : Reading) (word : String) : Option Reading :=
  if r.task.isNone || r.file.isSome || word.isEmpty then .none else
    some { r with file := some word }

/-- The reading with a word that is no option: the task, then the file. -/
def positional? (r : Reading) (word : String) : Option Reading :=
  if r.task.isNone then
    (task? word).map fun task =>
    { r with task := some task, outerConfig := r.config, config := .none }
  else r.operand? word

/-- Whether a word is an option. -/
def isOption (word : String) : Bool := word.startsWith "-" && word != "-"

/-- The name and the value of an option written as one word. -/
def joined? (word : String) : Option (String × String) :=
  match word.splitOn "=" with
  | name :: value :: rest => some (name, "=".intercalate (value :: rest))
  | _ => .none

/-- Reads words. An option that neither stands alone nor is joined with its value takes the next
word. -/
def words? (r : Reading) : List String → Option Reading
  | [] => some r
  | "--" :: rest => rest.foldlM operand? r
  | word :: rest =>
    if isOption word then
      match joined? word, r.flag? word, rest with
      | some (name, value), _, rest => (r.option? name value).bind fun r => words? r rest
      | _, some r, rest => words? r rest
      | _, _, value :: rest =>
        if isOption value then .none else (r.option? word value).bind fun r => words? r rest
      | _, _, [] => .none
    else (r.positional? word).bind fun r => words? r rest

end Reading

/-- The invocation that the words of a command line stand for. -/
def ofWords? (words : List String) : Option Invocation := do
  let r ← Reading.none.words? words
  return ⟨← r.task, ← r.file, r.config <|> r.outerConfig⟩

end Invocation

end Stepwise
