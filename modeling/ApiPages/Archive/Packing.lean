import ApiPages.Text.Bytes

/-!
# Packed contents

Contents are stored and sent packed.  `Packing` is how that is done: what is said of archives and
graphs holds for every packing, and where contents have to come back it is asked that `unpack?`
inverts `pack`.
-/

namespace ApiPages

structure Packing where
  pack : Bytes → Bytes
  /-- The content, unless the bytes are no packed content. -/
  unpack? : Bytes → Option Bytes

/-- What was packed is unpacked as it was. -/
def Packing.IsLossless (p : Packing) : Prop :=
  ∀ content, p.unpack? (p.pack content) = some content

end ApiPages
