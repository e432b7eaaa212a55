import ApiPages.Schema.Reader
import ApiPages.Text.Bytes

/-!
# Reading a schema from a stream

A stream hands out bytes in pieces of any size.  A `LineScanner` collects them in a buffer, which
grows up to a limit, and takes lines from the front of what it has.

* `LineScanner.split?` takes a line, `LineScanner.refill?` reads once more;
* `LineScanner.lines?` are the lines of a stream, unless one does not fit the buffer;
* `Schema.readStream?` reads a schema line by line.
-/

namespace ApiPages

structure LineScanner where
  /-- The bytes of the stream that were not read yet. -/
  unread : List UInt8
  /-- The bytes that were read and belong to no line yet. -/
  window : List UInt8 := []
  /-- Where in the buffer the window begins. -/
  start : Nat := 0
  /-- The size of the buffer. -/
  size : Nat := 65536
  /-- Whether the end of the stream was seen. -/
  atEnd : Bool := false
  deriving DecidableEq, Repr

namespace LineScanner

/-! ## Lines -/

/-- A line without the carriage return at its end. -/
def dropReturn (line : List UInt8) : List UInt8 :=
  if line.getLast? == some 13 then line.dropLast else line

/-- The first line of the window and the bytes after it.  Without a line end there is none, except
at the end of the stream, where the rest is a line unless it is empty. -/
def split? (s : LineScanner) : Option (List UInt8 × List UInt8) :=
  if s.window.contains 10 then
    some (dropReturn (s.window.takeWhile (· != 10)), (s.window.dropWhile (· != 10)).drop 1)
  else if s.atEnd && !s.window.isEmpty then some (dropReturn s.window, [])
  else none

/-- Moves on to the bytes after a line. -/
def advance (s : LineScanner) (rest : List UInt8) : LineScanner :=
  { s with window := rest, start := s.start + (s.window.length - rest.length) }

/-! ## Reading -/

/-- Moves the window to the front of the buffer if there is no room behind it or much before it. -/
def shift (s : LineScanner) : LineScanner :=
  if 0 < s.start && (s.start + s.window.length == s.size || s.size / 2 < s.start) then
    { s with start := 0 }
  else s

/-- Doubles the buffer, up to a limit. -/
def grow (limit : Nat) (s : LineScanner) : LineScanner :=
  { s with size := min (s.size * 2) limit, start := 0 }

/-- Reads as many bytes as the stream grants, at least one and no more than there is room for.  What
is granted may depend on how much was read before.  The end takes a read of its own. -/
def read (grant : Nat → Nat) (s : LineScanner) : LineScanner :=
  if s.unread.isEmpty then { s with atEnd := true }
  else
    let room := s.size - (s.start + s.window.length)
    let count := max 1 (min (grant s.unread.length) room)
    { s with window := s.window ++ s.unread.take count, unread := s.unread.drop count }

/-- Makes room and reads once.  A buffer that is full and as large as can be has no line in it. -/
def refill? (grant : Nat → Nat) (limit : Nat) (s : LineScanner) : Option LineScanner :=
  let s := s.shift
  if s.start + s.window.length == s.size then
    if limit ≤ s.size then none else some ((s.grow limit).read grant)
  else some (s.read grant)

/-! ## All lines -/

/-- What is left to do: bytes are read once and leave the window once, and the end is seen once. -/
def work (s : LineScanner) : Nat :=
  2 * s.unread.length + s.window.length + (if s.atEnd then 0 else 1)

theorem length_rest_of_split? {s : LineScanner} {line rest : List UInt8}
    (h : s.split? = some (line, rest)) : rest.length < s.window.length := by
  unfold split? at h
  split at h
  · next hcontains =>
      cases h
      have hpos := List.length_pos_of_mem (List.contains_iff_mem.1 hcontains)
      have hless := (List.dropWhile_suffix (· != 10) (l := s.window)).length_le
      rw [List.length_drop]
      omega
  · split at h
    · next hlast =>
        cases h
        rw [Bool.and_eq_true, Bool.not_eq_true', List.isEmpty_eq_false_iff] at hlast
        exact List.length_pos_iff.2 hlast.2
    · cases h

theorem work_advance {s : LineScanner} {line rest : List UInt8} (h : s.split? = some (line, rest)) :
    (s.advance rest).work < s.work :=
  Nat.add_lt_add_right (Nat.add_lt_add_left (length_rest_of_split? h) _) _

theorem work_read {s : LineScanner} (grant : Nat → Nat) (h : s.atEnd = false) :
    (s.read grant).work < s.work := by
  unfold read
  split
  · exact Nat.add_lt_add_left (by rw [h]; exact Nat.zero_lt_one) _
  · next hunread =>
      rw [List.isEmpty_iff] at hunread
      have hpos := List.length_pos_iff.2 hunread
      refine Nat.add_lt_add_right ?_ _
      rw [List.length_append, List.length_take, List.length_drop]
      omega

theorem shift_eq (s : LineScanner) : ∃ start, s.shift = { s with start } := by
  unfold shift
  split
  · exact ⟨0, rfl⟩
  · exact ⟨s.start, rfl⟩

theorem work_refill {s s' : LineScanner} {grant : Nat → Nat} {limit : Nat} (hend : s.atEnd = false)
    (h : s.refill? grant limit = some s') : s'.work < s.work := by
  rcases shift_eq s with ⟨start, hshift⟩
  unfold refill? at h
  dsimp only at h
  rw [hshift] at h
  split at h
  · split at h
    · cases h
    · cases h
      have hgrown : ({ s with start }.grow limit : LineScanner).work = s.work := rfl
      have hread := work_read (s := { s with start }.grow limit) grant hend
      rwa [hgrown] at hread
  · cases h
    exact work_read (s := { s with start }) grant hend

/-- The lines of a stream. -/
def lines? (grant : Nat → Nat) (limit : Nat) (s : LineScanner) : Option (List (List UInt8)) :=
  match hsplit : s.split? with
  | some (line, rest) =>
      have := work_advance hsplit
      (lines? grant limit (s.advance rest)).map (line :: ·)
  | none =>
      match hend : s.atEnd with
      | true => some []
      | false =>
          match hrefill : s.refill? grant limit with
          | none => none
          | some s' =>
              have := work_refill hend hrefill
              lines? grant limit s'
termination_by s.work

end LineScanner

namespace Schema

/-- Reads a schema from a stream of bytes unless one of its lines is too long. -/
def readStream? (grant : Nat → Nat) (bytes : List UInt8) : Option Schema :=
  (LineScanner.lines? grant lineLimit { unread := bytes }).map fun lines =>
    ofLines (lines.map fun line => (Bytes.text line).toList)

end Schema
end ApiPages
