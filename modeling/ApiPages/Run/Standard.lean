import ApiPages.Archive.Frame
import ApiPages.Run.Formats
import ApiPages.Settings.File
import ApiPages.Settings.Weak
import ApiPages.Yaml.Header

/-!
# Standard formats

The formats of the program: headers in YAML, frames of stored blocks, and settings files that are
decoded generously.
-/

namespace ApiPages

def Formats.standard : Formats where
  headers := .yaml
  packing := .stored
  settings := { read? := SettingsFile.read?, decoder := .weak }

end ApiPages
