import ApiPages.Archive.Packing
import ApiPages.FrontMatter
import ApiPages.Settings.Load

/-!
# Formats of a run

The formats that a run writes and reads and that are laid down elsewhere: the headers of pages, the
packing of contents, and files of settings.
-/

namespace ApiPages

structure Formats where
  headers : HeaderFormat
  packing : Packing
  settings : SettingsFormat

end ApiPages
