import TieredCache.Config.Reader

/-!
# Configuration files

A missing file stands for the default configuration. Any other file must hold a text that describes
a valid configuration.
-/

namespace TieredCache.Config

/-- What is found at the path of a configuration file. -/
inductive File where
  | missing
  | directory
  | content (bytes : ByteArray)

def load : File → Except Error Config
  | .missing => .ok {}
  | .directory => .error (.file .isDirectory)
  | .content bytes =>
    match String.fromUTF8? bytes with
    | none => .error (.file .notUtf8)
    | some text =>
      match parse text with
      | .error e => .error (.read e (.ofLeft text e.left))
      | .ok c => (validate c).map fun _ => c

end TieredCache.Config
