import ApiPages.Json.Reader

/-!
# The texts of JSON values

`Spells j cs` says that the characters `cs` are a text of the value `j`, by the grammar and without
looking at how the reader goes about it.  Blanks may stand between any two tokens, a string may
spell each of its characters in every way there is, and the sources recorded in the value are the
pieces of the text they come from.

* `Escapes value cs` for the inside of a string, `Literal cs` for numbers;
* `Separated R xs cs` for texts of `xs` with commas between them;
* `Spells` and `SpellsMember` for values and members, `Spells.head` for how they begin.
-/

namespace ApiPages
namespace Json

/-! ## Tokens -/

def Gap (cs : List Char) : Prop :=
  ∀ c ∈ cs, isGap c = true

/-- The inside of a string, after the text that it stands for.  A surrogate without a partner stands
for the replacement character. -/
inductive Escapes : List Char → List Char → Prop
  | nil : Escapes [] []
  | char {c : Char} {value cs : List Char} : 0x20 ≤ c.toNat → c ≠ '"' → c ≠ '\\' →
      Escapes value cs →
      Escapes (c :: value) (c :: cs)
  | short {e c : Char} {value cs : List Char} : shortEscape e = some c → Escapes value cs →
      Escapes (c :: value) ('\\' :: e :: cs)
  | unicode {a b c d : Char} {n : Nat} {value cs : List Char} : hexQuad a b c d = some n →
      isHighSurrogate n = false → isLowSurrogate n = false → Escapes value cs →
      Escapes (Char.ofNat n :: value) ('\\' :: 'u' :: a :: b :: c :: d :: cs)
  | pair {a b c d e f g h : Char} {n m : Nat} {value cs : List Char} : hexQuad a b c d = some n →
      hexQuad e f g h = some m → isHighSurrogate n = true → isLowSurrogate m = true →
      Escapes value cs →
      Escapes (pairValue n m :: value)
        ('\\' :: 'u' :: a :: b :: c :: d :: '\\' :: 'u' :: e :: f :: g :: h :: cs)
  | lone {a b c d : Char} {n : Nat} {value cs : List Char} : hexQuad a b c d = some n →
      isHighSurrogate n = true ∨ isLowSurrogate n = true →
      (∀ e f g h m more, cs = '\\' :: 'u' :: e :: f :: g :: h :: more → hexQuad e f g h = some m →
        (isHighSurrogate n && isLowSurrogate m) = false) → Escapes value cs →
      Escapes (replacement :: value) ('\\' :: 'u' :: a :: b :: c :: d :: cs)

/-- A string with its quotes, after the text that it stands for. -/
inductive Quoted : List Char → List Char → Prop
  | mk {value cs : List Char} : Escapes value cs → Quoted value ('"' :: cs ++ ['"'])

/-- A text without quotes, backslashes and control characters is spelled as it is. -/
theorem quoted_self {s : List Char}
    (h : s.all (fun c => 0x20 ≤ c.toNat && c != '"' && c != '\\') = true) :
    Quoted s ('"' :: s ++ ['"']) := by
  have hescapes : Escapes s s := by
    induction s with
    | nil =>
        exact .nil
    | cons c s ih =>
        rw [List.all_cons] at h
        simp only [Bool.and_eq_true, decide_eq_true_eq, bne_iff_ne] at h
        rcases h with ⟨⟨⟨hctl, hquote⟩, hback⟩, hrest⟩
        exact .char hctl hquote hback (ih hrest)
  exact .mk hescapes

def Digits (cs : List Char) : Prop :=
  cs ≠ [] ∧ ∀ c ∈ cs, c.isDigit = true

inductive Whole : List Char → Prop
  | zero : Whole ['0']
  | digits {cs : List Char} : Digits cs → cs.head? ≠ some '0' → Whole cs

inductive Fraction : List Char → Prop
  | none : Fraction []
  | some {ds : List Char} : Digits ds → Fraction ('.' :: ds)

inductive Exponent : List Char → Prop
  | none : Exponent []
  | some {e : Char} {sign ds : List Char} : e = 'e' ∨ e = 'E' →
      sign = [] ∨ sign = ['+'] ∨ sign = ['-'] →
      Digits ds → Exponent (e :: (sign ++ ds))

/-- A number without leading zeros. -/
inductive Literal : List Char → Prop
  | mk {sign whole fraction exponent : List Char} : sign = [] ∨ sign = ['-'] → Whole whole →
      Fraction fraction → Exponent exponent → Literal (sign ++ (whole ++ (fraction ++ exponent)))

/-! ## Values -/

/-- Texts of one or more things, with commas and blanks between them. -/
inductive Separated {α : Type} (R : α → List Char → Prop) : List α → List Char → Prop
  | last {x : α} {cs g : List Char} : R x cs → Gap g → Separated R [x] (cs ++ g)
  | cons {x : α} {xs : List α} {cs g g' more : List Char} : R x cs → Gap g → Gap g' →
      Separated R xs more → Separated R (x :: xs) (cs ++ (g ++ ',' :: (g' ++ more)))

mutual

inductive Spells : Json → List Char → Prop
  | null : Spells .null "null".toList
  | isTrue : Spells (.bool true) "true".toList
  | isFalse : Spells (.bool false) "false".toList
  | number {cs : List Char} : Literal cs → Spells (.number (String.ofList cs)) cs
  | string {value cs : List Char} : Quoted value cs →
      Spells (.string (String.ofList cs) (String.ofList value)) cs
  | emptyArray {g : List Char} : Gap g →
      Spells (.array (String.ofList ('[' :: (g ++ [']']))) []) ('[' :: (g ++ [']']))
  | array {items : List Json} {g cs : List Char} : Gap g → Separated Spells items cs →
      Spells (.array (String.ofList ('[' :: (g ++ (cs ++ [']'])))) items)
        ('[' :: (g ++ (cs ++ [']'])))
  | emptyObject {g : List Char} : Gap g →
      Spells (.object (String.ofList ('\x7b' :: (g ++ ['\x7d']))) []) ('\x7b' :: (g ++ ['\x7d']))
  | object {members : List (String × Json)} {g cs : List Char} : Gap g →
      Separated SpellsMember members cs →
      Spells (.object (String.ofList ('\x7b' :: (g ++ (cs ++ ['\x7d'])))) members)
        ('\x7b' :: (g ++ (cs ++ ['\x7d'])))

inductive SpellsMember : String × Json → List Char → Prop
  | mk {key k a b cs : List Char} {j : Json} : Quoted key k → Gap a → Gap b → Spells j cs →
      SpellsMember (String.ofList key, j) (k ++ (a ++ ':' :: (b ++ cs)))

end

end Json
end ApiPages
