import ApiPages.Schema.Stream
import ApiPages.Proofs.Text.Blank
import ApiPages.Proofs.Text.Bytes

/-!
# Schemas that are read from a stream

A stream gives the same schema as the whole text, in whatever pieces its bytes come, unless a line
fills the buffer.

* `LineScanner.Fits` is what holds of a scanner between two steps;
* `LineScanner.lines?_eq` are the lines of a stream: those of its bytes, without carriage returns
  and without an empty one at the end;
* `Schema.ofLines_lineTokens` says that neither makes a difference to the reader;
* `Schema.readStream?_spec` puts this together.
-/

namespace ApiPages

namespace LineScanner

variable {s s' : LineScanner} {grant : Nat → Nat} {limit : Nat} {bytes front line rest : List UInt8}

/-! ## Lines of bytes -/

/-- The lines of bytes as a scanner hands them out. -/
def lineTokens (bytes : List UInt8) : List (List UInt8) :=
  (if (bytes.splitOn 10).getLast? = some [] then (bytes.splitOn 10).dropLast
    else bytes.splitOn 10).map dropReturn

/-- Whether some line between line ends reaches the limit. -/
def HasLongLine (limit : Nat) (bytes : List UInt8) : Prop :=
  ∃ line ∈ bytes.splitOn 10, limit ≤ line.length

instance (limit : Nat) (bytes : List UInt8) : Decidable (HasLongLine limit bytes) :=
  inferInstanceAs (Decidable (∃ line ∈ bytes.splitOn 10, limit ≤ line.length))

theorem splitOn_of_not_mem (h : 10 ∉ front) : front.splitOn 10 = [front] :=
  List.splitOnP_eq_singleton fun _ hb => beq_eq_false_iff_ne.2 fun heq => h (heq ▸ hb)

theorem splitOn_append (h : 10 ∉ front) (rest : List UInt8) :
    (front ++ 10 :: rest).splitOn 10 = front :: rest.splitOn 10 := by
  have hcut : (front ++ 10 :: rest).splitOn 10 = front.splitOn 10 ++ rest.splitOn 10 :=
    List.splitOnP_append_cons front rest rfl
  rw [hcut, splitOn_of_not_mem h, List.singleton_append]

theorem lineTokens_append (h : 10 ∉ front) (rest : List UInt8) :
    lineTokens (front ++ 10 :: rest) = dropReturn front :: lineTokens rest := by
  have hne : rest.splitOn 10 ≠ [] := List.splitOnP_ne_nil _ rest
  rw [lineTokens, lineTokens, splitOn_append h]
  cases hlines : rest.splitOn 10 with
  | nil =>
      exact absurd hlines hne
  | cons first more =>
      rw [List.getLast?_cons_cons, List.dropLast_cons_cons]
      split <;> rfl

theorem lineTokens_of_not_mem (h : 10 ∉ front) (hne : front ≠ []) :
    lineTokens front = [dropReturn front] := by
  rw [lineTokens, splitOn_of_not_mem h, if_neg (by simpa using hne), List.map_singleton]

theorem hasLongLine_append (h : 10 ∉ front) (hshort : front.length < limit) (rest : List UInt8) :
    HasLongLine limit (front ++ 10 :: rest) ↔ HasLongLine limit rest := by
  rw [HasLongLine, HasLongLine, splitOn_append h, List.exists_mem_cons_iff]
  exact or_iff_right (Nat.not_le_of_lt hshort)

theorem hasLongLine_of_not_mem (h : 10 ∉ front) :
    HasLongLine limit front ↔ limit ≤ front.length := by
  rw [HasLongLine, splitOn_of_not_mem h]
  simp

/-- A long piece without a line end begins a long line. -/
theorem hasLongLine_of_front (h : 10 ∉ front) (hlong : limit ≤ front.length) (rest : List UInt8) :
    HasLongLine limit (front ++ rest) := by
  -- the line ends behind the piece or with the bytes; either way it is as long as the piece
  by_cases hrest : 10 ∈ rest
  · rcases List.eq_append_cons_of_mem hrest with ⟨before, after, rfl, hbefore⟩
    have hfirst : 10 ∉ front ++ before := by
      rw [List.mem_append, not_or]
      exact ⟨h, hbefore⟩
    rw [← List.append_assoc, HasLongLine, splitOn_append hfirst]
    refine ⟨_, List.mem_cons_self .., ?_⟩
    rw [List.length_append]
    exact Nat.le_add_right_of_le hlong
  · have hnone : 10 ∉ front ++ rest := by
      rw [List.mem_append, not_or]
      exact ⟨h, hrest⟩
    rw [hasLongLine_of_not_mem hnone, List.length_append]
    exact Nat.le_add_right_of_le hlong

/-- The lines of bytes, unless one of them is too long. -/
def lineTokens? (limit : Nat) (bytes : List UInt8) : Option (List (List UInt8)) :=
  if HasLongLine limit bytes then none else some (lineTokens bytes)

theorem lineTokens?_append (h : 10 ∉ front) (hshort : front.length < limit) (rest : List UInt8) :
    lineTokens? limit (front ++ 10 :: rest) =
      (lineTokens? limit rest).map (dropReturn front :: ·) := by
  have hlong := hasLongLine_append h hshort rest
  unfold lineTokens?
  by_cases hrest : HasLongLine limit rest
  · rw [if_pos hrest, if_pos (hlong.2 hrest), Option.map_none]
  · rw [if_neg hrest, if_neg (mt hlong.1 hrest), Option.map_some, lineTokens_append h]

theorem lineTokens?_of_not_mem (h : 10 ∉ front) (hne : front ≠ []) (hshort : front.length < limit) :
    lineTokens? limit front = some [dropReturn front] := by
  have hnone : ¬ HasLongLine limit front :=
    fun hlong => Nat.not_le_of_lt hshort ((hasLongLine_of_not_mem h).1 hlong)
  rw [lineTokens?, if_neg hnone, lineTokens_of_not_mem h hne]

theorem lineTokens?_nil (h : 0 < limit) : lineTokens? limit [] = some [] := by
  have hnone : ¬ HasLongLine limit [] :=
    fun hlong => Nat.not_le_of_lt h ((hasLongLine_of_not_mem (by simp)).1 hlong)
  rw [lineTokens?, if_neg hnone]
  rfl

/-! ## One step -/

/-- What holds between two steps of a scanner.  When the end has been seen there was room left. -/
structure Fits (limit : Nat) (s : LineScanner) : Prop where
  room : s.start + s.window.length ≤ s.size
  size : 0 < s.size ∧ s.size ≤ limit
  ended : s.atEnd = true → s.unread = [] ∧ s.window.length < limit

theorem split?_eq_some (h : s.split? = some (line, rest)) :
    (∃ front, 10 ∉ front ∧ s.window = front ++ 10 :: rest ∧ line = dropReturn front) ∨
      10 ∉ s.window ∧ s.atEnd = true ∧ s.window ≠ [] ∧ line = dropReturn s.window ∧ rest = [] := by
  unfold split? at h
  split at h
  · next hcontains =>
      cases h
      rcases List.eq_append_cons_of_mem (List.contains_iff_mem.1 hcontains) with
        ⟨front, rest, hwindow, hfront⟩
      have hnot : ∀ b ∈ front, (b != 10) = true :=
        fun b hb => bne_iff_ne.2 fun heq => hfront (heq ▸ hb)
      refine .inl ⟨front, hfront, ?_, ?_⟩
      · rw [hwindow, List.dropWhile_append_of_pos hnot]
        rfl
      · rw [hwindow, List.takeWhile_append_of_pos hnot]
        exact congrArg dropReturn (List.append_nil front)
  · next hcontains =>
      split at h
      · next hlast =>
          cases h
          rw [Bool.and_eq_true, Bool.not_eq_true', List.isEmpty_eq_false_iff] at hlast
          exact .inr
            ⟨fun hmem => hcontains (List.contains_iff_mem.2 hmem), hlast.1, hlast.2, rfl, rfl⟩
      · cases h

theorem split?_eq_none (h : s.split? = none) :
    10 ∉ s.window ∧ (s.atEnd = true → s.window = []) := by
  unfold split? at h
  split at h
  · cases h
  · next hcontains =>
      refine ⟨fun hmem => hcontains (List.contains_iff_mem.2 hmem), fun hend => ?_⟩
      split at h
      · cases h
      · next hlast =>
          simpa [hend] using hlast

theorem Fits.advance (h : s.Fits limit) (hless : rest.length ≤ s.window.length) :
    (s.advance rest).Fits limit where
  room := by
    have hroom := h.room
    simp only [LineScanner.advance]
    omega
  size := h.size
  ended hend := ⟨(h.ended hend).1, Nat.lt_of_le_of_lt hless (h.ended hend).2⟩

theorem Fits.read (h : s.Fits limit) (hroom : s.start + s.window.length < s.size) :
    (s.read grant).Fits limit ∧ (s.read grant).window ++ (s.read grant).unread =
      s.window ++ s.unread := by
  unfold LineScanner.read
  split
  · next hunread =>
      have hwindow : s.window.length < limit := by
        have hsize := h.size.2
        omega
      exact ⟨⟨h.room, h.size, fun _ => ⟨List.isEmpty_iff.1 hunread, hwindow⟩⟩, rfl⟩
  · next hunread =>
      refine ⟨⟨?_, h.size, fun hend => ?_⟩, ?_⟩
      · dsimp only
        rw [List.length_append, List.length_take]
        omega
      · exact absurd (List.isEmpty_iff.2 (h.ended hend).1) hunread
      · dsimp only
        rw [List.append_assoc, List.take_append_drop]

/-- Where there is no room behind the window, there is none before it after a shift. -/
theorem Fits.shift (h : s.Fits limit) : ∃ start, s.shift = { s with start } ∧
    start + s.window.length ≤ s.size ∧ (start + s.window.length = s.size → start = 0) := by
  have hroom := h.room
  unfold LineScanner.shift
  split
  · exact ⟨0, rfl, by omega, fun _ => rfl⟩
  · next hstay =>
      refine ⟨s.start, rfl, hroom, fun hfull => ?_⟩
      rw [Bool.and_eq_true, not_and, decide_eq_true_eq] at hstay
      rcases Nat.eq_zero_or_pos s.start with hzero | hpos
      · exact hzero
      · exact absurd (by rw [beq_iff_eq.2 hfull, Bool.true_or]) (hstay hpos)

/-- A scanner makes room and reads, unless the window is as long as a buffer can be. -/
theorem Fits.refill? (h : s.Fits limit) :
    (s.refill? grant limit = none → limit ≤ s.window.length) ∧
      ∀ s', s.refill? grant limit = some s' →
        s'.Fits limit ∧ s'.window ++ s'.unread = s.window ++ s.unread := by
  rcases h.shift with ⟨start, hshift, hroom, hfull⟩
  unfold LineScanner.refill?
  rw [hshift]
  dsimp only
  -- a shift changes where the window begins and nothing else
  have hfits : ({ s with start } : LineScanner).Fits limit := ⟨hroom, h.size, h.ended⟩
  split
  · next hend =>
      have hzero := hfull (beq_iff_eq.1 hend)
      have hlength : s.window.length = s.size := by
        have heq := beq_iff_eq.1 hend
        omega
      split
      · next hlimit =>
          exact ⟨fun _ => hlength ▸ hlimit, fun s' hs' => (nomatch hs')⟩
      · next hlimit =>
          refine ⟨fun hnone => (nomatch hnone), fun s' hs' => ?_⟩
          cases hs'
          have hsize := h.size
          have hgrown : (({ s with start } : LineScanner).grow limit).Fits limit :=
            ⟨by simp only [grow]; omega, ⟨by simp only [grow]; omega, Nat.min_le_right ..⟩, h.ended⟩
          exact hgrown.read (by simp only [grow]; omega)
  · next hend =>
      refine ⟨fun hnone => (nomatch hnone), fun s' hs' => ?_⟩
      cases hs'
      rw [beq_iff_eq] at hend
      exact hfits.read (Nat.lt_of_le_of_ne hroom hend)

/-! ## All lines -/

/-- The lines of a stream are those of its bytes, unless one of them is too long. -/
theorem lines?_eq (h : s.Fits limit) :
    s.lines? grant limit = lineTokens? limit (s.window ++ s.unread) := by
  -- a line is handed out, the end is reached, the buffer is full, or more is read; the first takes
  -- a line off the bytes that are left, the last moves some of them into the window
  fun_induction lines? grant limit s with
  | case1 s line rest hsplit _ ih =>
      have hless := Nat.le_of_lt (length_rest_of_split? hsplit)
      rw [ih (h.advance hless)]
      rcases split?_eq_some hsplit with ⟨front, hfront, hwindow, rfl⟩ | ⟨hnone, hend, hne, rfl, rfl⟩
      · have hshort : front.length < limit := by
          have hroom := h.room
          have hsize := h.size.2
          rw [hwindow, List.length_append, List.length_cons] at hroom
          omega
        rw [hwindow, List.append_assoc, List.cons_append, lineTokens?_append hfront hshort]
        rfl
      · rcases h.ended hend with ⟨hunread, hshort⟩
        have hempty : (s.advance []).window ++ (s.advance []).unread = [] := hunread
        rw [hempty, hunread, List.append_nil, lineTokens?_of_not_mem hnone hne hshort,
          lineTokens?_nil (Nat.zero_lt_of_lt hshort)]
        rfl
  | case2 s hsplit hend =>
      rw [(split?_eq_none hsplit).2 hend, (h.ended hend).1, List.append_nil,
        lineTokens?_nil (Nat.lt_of_lt_of_le h.size.1 h.size.2)]
  | case3 s hsplit hend hrefill =>
      have hlong := h.refill?.1 hrefill
      rw [lineTokens?, if_pos (hasLongLine_of_front (split?_eq_none hsplit).1 hlong s.unread)]
  | case4 s hsplit hend s' hrefill _ ih =>
      rcases h.refill?.2 s' hrefill with ⟨hfits, hsame⟩
      rw [ih hfits, hsame]

theorem fits_initial (h : 65536 ≤ limit) (bytes : List UInt8) :
    ({ unread := bytes } : LineScanner).Fits limit where
  room := Nat.zero_le 65536
  size := ⟨Nat.zero_lt_succ 65535, h⟩
  ended hend := (nomatch hend)

end LineScanner

/-! ## What the reader makes of the lines -/

namespace Reader

/-- A reader takes a line without the blanks around it. -/
theorem line_congr {raw raw' : List Char} (h : Text.trim raw = Text.trim raw') (r : Reader) :
    r.line raw = r.line raw' := by
  rw [line, line, h]

theorem line_append_return (r : Reader) (raw : List Char) : r.line (raw ++ ['\r']) = r.line raw :=
  line_congr (Text.trim_append_blanks (List.forall_mem_singleton.2 rfl) raw) r

/-- An empty line at the end has no effect: a comment that waits has no item to wait for. -/
theorem finish_line_nil (r : Reader) : (r.line []).finish = r.finish := by
  cases hcomment : r.inComment with
  | true =>
      have hsame : r.line [] = r := by
        rw [line, hcomment]
        rfl
      rw [hsame]
  | false =>
      have hpending : r.line [] = { r with pending := [] } := by
        rw [line, hcomment]
        rfl
      rw [hpending]
      rfl

end Reader

namespace Schema

open LineScanner (HasLongLine lineTokens)

theorem ofLines_concat_nil (lines : List (List Char)) :
    ofLines (lines ++ [[]]) = ofLines lines := by
  rw [ofLines, ofLines, List.foldl_append, List.foldl_cons, List.foldl_nil, Reader.finish_line_nil]

theorem ofLines_map_congr {α : Type} {f g : α → List Char}
    (h : ∀ x r, Reader.line r (f x) = Reader.line r (g x)) (xs : List α) :
    ofLines (xs.map f) = ofLines (xs.map g) := by
  rw [ofLines, ofLines, List.foldl_map, List.foldl_map]
  exact congrArg (fun step => (xs.foldl step {}).finish) (funext fun r => funext fun x => h x r)

/-- A carriage return that is dropped from the bytes of a line is one that the reader trims. -/
theorem line_decoded_dropReturn (line : Bytes) (r : Reader) :
    r.line (Utf8.decoded Bytes.keeping (LineScanner.dropReturn line)) =
      r.line (Utf8.decoded Bytes.keeping line) := by
  unfold LineScanner.dropReturn
  split
  · next hlast =>
      have hsplit := List.dropLast_append_getLast? 13 (beq_iff_eq.1 hlast)
      have hback : Utf8.decoded Bytes.keeping line =
          Utf8.decoded Bytes.keeping line.dropLast ++ ['\r'] := by
        conv_lhs => rw [← hsplit]
        exact Utf8.decoded_append Bytes.keeping (b := 13) (by decide) line.dropLast []
      rw [hback, Reader.line_append_return]
  · rfl

/-- The lines that a scanner hands out give the schema of the text. -/
theorem ofLines_lineTokens (bytes : Bytes) :
    ofLines ((lineTokens bytes).map fun line => (Bytes.text line).toList) =
      parse (Bytes.text bytes) := by
  have hreturns : ∀ lines : List Bytes,
      ofLines ((lines.map LineScanner.dropReturn).map fun line => (Bytes.text line).toList) =
        ofLines (lines.map (Utf8.decoded Bytes.keeping)) := by
    intro lines
    rw [List.map_map]
    refine ofLines_map_congr (fun line r => ?_) lines
    rw [Function.comp_apply, Bytes.toList_text, line_decoded_dropReturn]
  rw [parse, Bytes.toList_text, Utf8.splitOn_decoded, lineTokens, hreturns]
  split
  · next hlast =>
      have hsplit := List.dropLast_append_getLast? [] hlast
      conv_rhs => rw [← hsplit, List.map_append]
      exact (ofLines_concat_nil _).symm
  · rfl

/-! ## Streams and texts -/

theorem readStream?_eq (grant : Nat → Nat) (bytes : Bytes) : readStream? grant bytes =
    if HasLongLine lineLimit bytes then none else some (parse (Bytes.text bytes)) := by
  have hfits : LineScanner.Fits lineLimit { unread := bytes } :=
    LineScanner.fits_initial (by decide) bytes
  rw [readStream?, LineScanner.lines?_eq hfits]
  change (LineScanner.lineTokens? lineLimit bytes).map _ = _
  unfold LineScanner.lineTokens?
  split
  · rfl
  · exact congrArg some (ofLines_lineTokens bytes)

theorem hasLongLine_encoded (text : String) : HasLongLine lineLimit (Utf8.encoded text.toList) ↔
    ∃ line ∈ text.toList.splitOn '\n', lineLimit ≤ Text.byteLength line := by
  rw [HasLongLine, Utf8.splitOn_encoded]
  simp [Utf8.length_encoded]

/-- A stream has no schema if one of its lines reaches the limit; otherwise it has the schema of the
whole text, however its bytes come in.  The text has every byte of the stream, also those that
belong to no character. -/
theorem readStream?_spec (grant : Nat → Nat) (bytes : Bytes) :
    readStream? grant bytes =
        (if HasLongLine lineLimit bytes then none else some (parse (Bytes.text bytes))) ∧
      Bytes.ofText (Bytes.text bytes) = bytes :=
  ⟨readStream?_eq grant bytes, Bytes.ofText_text bytes⟩

/-- An ordinary text in UTF-8 is read from a stream as the text. -/
theorem readStream?_encoded (grant : Nat → Nat) {text : String} (h : Bytes.IsOrdinary text)
    (hshort : ∀ line ∈ text.toList.splitOn '\n', Text.byteLength line < lineLimit) :
    readStream? grant (Utf8.encoded text.toList) = some (parse text) := by
  have hlong : ¬ HasLongLine lineLimit (Utf8.encoded text.toList) := by
    rw [hasLongLine_encoded]
    rintro ⟨line, hline, hlimit⟩
    exact Nat.not_le_of_lt (hshort line hline) hlimit
  rw [readStream?_eq, if_neg hlong, Bytes.text_encoded h]

end Schema
end ApiPages
