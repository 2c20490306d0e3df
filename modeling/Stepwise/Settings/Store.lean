import Stepwise.Files.Tree
import Stepwise.Settings.Basic

/-!
# Settings in files

Loading and saving settings. Saving makes the directory, writes a file beside the one it is meant
for, and moves it into its place, so that the file is never there in part; what has been done before
a fault stays done.
-/

set_option autoImplicit false

namespace Stepwise

namespace RunnerSettings

/-- The settings in a file. -/
def load (t : Files) (path : String) : Except SettingsFault RunnerSettings :=
  ofReading (t.read path)

/-- The file that is written first, beside the one it is meant for. -/
def draftPath (path : String) : String := Path.withExtension path "json.tmp"

/-- The tree with settings saved in a file, as far as saving came, and the fault if there is one. -/
def save (t : Files) (path : String) (s : RunnerSettings) : Except SettingsFault Unit × Files :=
  match t.makeDirectories (Path.parent path) with
  | (.error fault, t) => (.error (.file fault), t)
  | (.ok (), t) =>
    match t.write (draftPath path) s.render.toUTF8 with
    | .error fault => (.error (.file fault), t)
    | .ok t =>
      match t.move (draftPath path) path with
      | .error fault => (.error (.file fault), t)
      | .ok t => (.ok (), t)

end RunnerSettings

end Stepwise
