import Stepwise.Files.Fault
import Stepwise.Json.Skip
import Stepwise.Json.Tree
import Stepwise.Machine.State

/-!
# Settings of a runner

How programs are driven: how many instructions a tick executes, how long it lasts, how many
instructions a step executes at most. They are kept in a file of data. A file may leave fields out;
it may also give them as an array, in their order. A file of a later version is refused.

* `RunnerSettings.render` writes settings, `RunnerSettings.ofText?` reads them.
* `RunnerSettings.ofReading` says what the settings are, given what reading the file has yielded.
-/

set_option autoImplicit false

namespace Stepwise

/-! ## Settings -/

/-- The settings of a runner. -/
structure RunnerSettings where
  version : Nat
  instructionsPerTick : Nat
  tickMillis : Nat
  stepLimit : Nat
  deriving Repr, DecidableEq

/-- A field of the settings. -/
inductive SettingsField where
  | version
  | instructionsPerTick
  | tickMillis
  | stepLimit
  deriving Repr, DecidableEq

namespace SettingsField

/-- The fields in their order. -/
def all : List SettingsField := [.version, .instructionsPerTick, .tickMillis, .stepLimit]

/-- The name of a field in the file. -/
def name : SettingsField → String
  | version => "version"
  | instructionsPerTick => "instructions_per_tick"
  | tickMillis => "tick_millis"
  | stepLimit => "step_over_limit"

/-- The greatest value of a field. -/
def greatest : SettingsField → Nat
  | version => Nat.pow 2 32 - 1
  | _ => Nat.pow 2 64 - 1

/-- The field of a name. -/
def ofName? (s : String) : Option SettingsField := all.find? (·.name == s)

end SettingsField

/-- The latest version of settings. -/
def settingsVersion : Nat := 1

/-- Why settings could not be loaded or saved. -/
inductive SettingsFault where
  | file (fault : FileFault)
  /-- The content is not that of settings. -/
  | malformed
  /-- The settings are of a later version. -/
  | version (n : Nat)
  deriving Repr, DecidableEq

/-- How a fault is reported. -/
def SettingsFault.message : SettingsFault → String
  | .file fault => "I/O error: " ++ fault.message
  | .malformed => "JSON error: not a settings file"
  | .version n => s!"Unsupported settings version {n}"

namespace RunnerSettings

/-- The settings where none are given. -/
def standard : RunnerSettings := ⟨settingsVersion, 1000, 16, Machine.defaultStepLimit⟩

instance : Inhabited RunnerSettings := ⟨standard⟩

/-- A field of the settings. -/
def get (s : RunnerSettings) : SettingsField → Nat
  | .version => s.version
  | .instructionsPerTick => s.instructionsPerTick
  | .tickMillis => s.tickMillis
  | .stepLimit => s.stepLimit

/-- The settings with some fields given and the others standard. -/
def ofFields (given : List (SettingsField × Nat)) : RunnerSettings :=
  let value (f : SettingsField) : Nat := ((given.find? (·.1 == f)).map (·.2)).getD (standard.get f)
  ⟨value .version, value .instructionsPerTick, value .tickMillis, value .stepLimit⟩

/-- The step limit of machines under these settings: a step executes at least one instruction. -/
def machineStepLimit (s : RunnerSettings) : Nat := max s.stepLimit 1

/-! ## Writing -/

/-- The settings as data. -/
def tree (s : RunnerSettings) : Json.Tree :=
  .object (SettingsField.all.map fun f => (f.name, .natural (s.get f)))

/-- The content of the file of the settings. -/
def render (s : RunnerSettings) : String := s.tree.render

/-! ## Reading -/

/-- The value of a field, if it is in its range. -/
def inRange? (f : SettingsField) (n : Nat) : Option (SettingsField × Nat) :=
  if n ≤ f.greatest then some (f, n) else none

/-- The member at the beginning, and what follows it. A member that is no field counts for
nothing. -/
def member? : List Json.Token → Option (Option (SettingsField × Nat) × List Json.Token)
  | .string (some key) :: .colon :: ts =>
    match SettingsField.ofName? key, ts with
    | some f, .number (some n) :: rest => (inRange? f n).map fun given => (some given, rest)
    | some _, _ => none
    | none, ts => (Json.skipValue ts).map fun rest => (none, rest)
  | _ => none

theorem length_member_lt {ts rest : List Json.Token} {m : Option (SettingsField × Nat)}
    (h : member? ts = some (m, rest)) : rest.length < ts.length := by
  unfold member? at h
  split at h
  · split at h
    · obtain ⟨_, _, hr⟩ := Option.map_eq_some_iff.1 h
      simp only [Prod.mk.injEq] at hr
      simp only [← hr.2, List.length_cons]
      omega
    · simp at h
    · obtain ⟨_, hs, hr⟩ := Option.map_eq_some_iff.1 h
      have := Json.length_skipValue_lt hs
      simp only [Prod.mk.injEq] at hr
      simp only [← hr.2, List.length_cons]
      omega
  · simp at h

/-- The fields among the members of an object, of which there is at least one, and what follows the
object. -/
def members? (ts : List Json.Token) : Option (List (SettingsField × Nat) × List Json.Token) :=
  match _h : member? ts with
  | some (m, .closeObject :: rest) => some (m.toList, rest)
  | some (m, .comma :: rest) =>
    (members? rest).map fun (others, after) => (m.toList ++ others, after)
  | _ => none
termination_by ts.length
decreasing_by
  have := length_member_lt _h
  simp only [List.length_cons] at this
  omega

/-- The entries of an array of naturals, of which there is at least one, and what follows the
array. -/
def entries? : List Json.Token → Option (List Nat × List Json.Token)
  | .number (some n) :: .closeArray :: rest => some ([n], rest)
  | .number (some n) :: .comma :: rest =>
    (entries? rest).map fun (others, after) => (n :: others, after)
  | _ => none

/-- The fields that the entries of an array give, in order. -/
def positional? : List SettingsField → List Nat → Option (List (SettingsField × Nat))
  | _, [] => some []
  | [], _ :: _ => none
  | f :: fields, n :: ns => do
    let given ← inRange? f n
    let others ← positional? fields ns
    return given :: others

/-- The fields that tokens give. No field may be given twice. -/
def fields? : List Json.Token → Option (List (SettingsField × Nat))
  | [.openObject, .closeObject] | [.openArray, .closeArray] => some []
  | .openObject :: ts =>
    match members? ts with
    | some (given, []) => if (given.map (·.1)).Nodup then some given else none
    | _ => none
  | .openArray :: ts =>
    match entries? ts with
    | some (ns, []) => positional? SettingsField.all ns
    | _ => none
  | _ => none

/-- The settings that a text gives. -/
def ofText? (text : String) : Option RunnerSettings := do
  let ts ← Json.tokens text
  let given ← fields? ts
  return ofFields given

/-- The settings, given what reading the file has yielded. Where there is no file the settings are
standard. -/
def ofReading : Except FileFault String → Except SettingsFault RunnerSettings
  | .error fault => if fault.absent then .ok standard else .error (.file fault)
  | .ok text =>
    match ofText? text with
    | none => .error .malformed
    | some s => if settingsVersion < s.version then .error (.version s.version) else .ok s

end RunnerSettings

/-- The file of the settings in a directory. -/
def settingsPath (directory : String) : String :=
  if directory.isEmpty || directory.endsWith "/" then directory ++ "robolang.json" else directory ++
    "/robolang.json"

end Stepwise
