import ApiPages.Archive.Packing

/-!
# Frames of stored blocks

A packing that makes nothing smaller.  A frame begins with a fixed head, and its blocks hold the
content as it is, up to a certain size each; a block begins with its size and with a mark on the
last one.  This is the plainest of the frames that a reader of the compressed format accepts, and
the only one that is read here.

* `Frame.blocks` and `Frame.ofBlocks?` write and read blocks;
* `Packing.stored` is the packing.
-/

namespace ApiPages
namespace Frame

/-- The number by which frames are known, and a window as large as the largest block. -/
def head : Bytes := [0x28, 0xB5, 0x2F, 0xFD, 0x00, 0x38]

def maxBlock : Nat := 131072

/-! ## Writing -/

/-- The head of a stored block. -/
def blockHead (isLast : Bool) (size : Nat) : Bytes :=
  let n := size * 8 + isLast.toNat
  [UInt8.ofNat (n % 256), UInt8.ofNat (n / 256 % 256), UInt8.ofNat (n / 65536)]

/-- The blocks of a content; `fuel` is more than the number of its bytes. -/
def blocks (fuel : Nat) (content : Bytes) : Bytes :=
  match fuel with
  | 0 => []
  | fuel + 1 =>
      if content.length ≤ maxBlock then blockHead true content.length ++ content
      else
        blockHead false maxBlock ++ (content.take maxBlock ++ blocks fuel (content.drop maxBlock))

/-! ## Reading -/

/-- The content of blocks; `fuel` is at least the number of bytes. -/
def ofBlocks? (fuel : Nat) (bytes : Bytes) : Option Bytes :=
  match fuel, bytes with
  | fuel + 1, a :: b :: c :: rest =>
      let n := a.toNat + 256 * b.toNat + 65536 * c.toNat
      let size := n / 8
      -- blocks of other kinds, and those that break off
      if n / 2 % 4 != 0 || rest.length < size then none
      else if n % 2 == 1 then if rest.length == size then some rest else none
      else (ofBlocks? fuel (rest.drop size)).map (rest.take size ++ ·)
  | _, _ => none

/-- The content of a frame.  Where there is nothing, nothing is packed. -/
def content? (bytes : Bytes) : Option Bytes :=
  if bytes.isEmpty then some []
  else (head.isPrefixOf? bytes).bind fun rest => ofBlocks? rest.length rest

end Frame

def Packing.stored : Packing where
  pack content := Frame.head ++ Frame.blocks (content.length + 1) content
  unpack? := Frame.content?

end ApiPages
