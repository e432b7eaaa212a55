import ApiPages.Yaml.Token

/-!
# The row of tokens

Tokens are made as they are asked for.  A key is only known by the colon after it, so that a token
that can begin a key is kept back until it is decided whether the token of a key has to go before
it.

* `Scanner` is the state in which tokens are made;
* `Scanner.fetch?` makes the next tokens;
* `Scanner.peek?` is the next token, `Scanner.drop` passes it.

Nothing is said about why a text is refused.
-/

namespace ApiPages
namespace Yaml

/-- A token that may turn out to begin a key. -/
structure KeyStart where
  /-- It stands where nothing but a key can stand. -/
  isRequired : Bool
  /-- The number of the token. -/
  number : Nat
  index : Nat
  line : Nat
  column : Nat
  deriving Repr

structure Scanner where
  source : Source
  /-- The column of the innermost block, `-1` outside of blocks. -/
  indent : Int := -1
  outerIndents : List Int := []
  mayStartKey : Bool := true
  /-- What may begin a key, for each level of brackets, the innermost first. -/
  keyStarts : List (Option KeyStart) := [none]
  tokens : List Token := []
  /-- The number of tokens passed. -/
  passed : Nat := 0
  deriving Repr

namespace Scanner

def flowLevel (s : Scanner) : Nat := s.keyStarts.length - 1

def inFlow (s : Scanner) : Bool := 0 < s.flowLevel

/-- The deepest nesting of brackets and of blocks. -/
def maxLevel : Nat := 10000

def push (s : Scanner) (t : Token) : Scanner :=
  { s with tokens := s.tokens ++ [t] }

/-- Puts a token before the one with a number. -/
def insert (s : Scanner) (number : Nat) (t : Token) : Scanner :=
  { s with tokens := s.tokens.insertIdx (number - s.passed) t }

/-! ## Possible keys -/

/-- What may begin a key on the current level. -/
def keyStart? (s : Scanner) : Option KeyStart := s.keyStarts.headD none

def setKeyStart (s : Scanner) (k : Option KeyStart) : Scanner :=
  { s with keyStarts := k :: s.keyStarts.tail }

/-- The longest distance between the beginning of a key and its colon. -/
def maxKeySize : Nat := 1024

/-- Whether a key can still begin there: it stands on one line and is not too long. -/
def isCurrent (s : Scanner) (k : KeyStart) : Bool :=
  !(k.line < s.source.line || k.index + maxKeySize < s.source.index)

/-- Gives up what may begin a key on the current level. -/
def forgetKey? (s : Scanner) : Option Scanner :=
  if s.keyStart?.any (·.isRequired) then none else some (s.setKeyStart none)

/-- Remembers that the next token may begin a key. -/
def saveKey? (s : Scanner) : Option Scanner :=
  if s.mayStartKey then do
    let s ← s.forgetKey?
    some (s.setKeyStart (some {
      -- in the column of a block every token that can begin a key has to
      isRequired := !s.inFlow && s.indent == s.source.column
      number := s.passed + s.tokens.length
      index := s.source.index
      line := s.source.line
      column := s.source.column }))
  else some s

/-! ## Indentation -/

/-- Opens a block at a column, unless one is open there.  Its token goes to the end or before a
token that is there already. -/
def openBlock? (s : Scanner) (column : Nat) (number : Option Nat) (t : Token) : Option Scanner :=
  if s.inFlow || column ≤ s.indent then some s
  else if maxLevel ≤ s.outerIndents.length then none
  else
    let s := { s with outerIndents := s.indent :: s.outerIndents, indent := column }
    some (match number with
      | some n => s.insert n t
      | none => s.push t)

/-- Closes the blocks that are indented deeper than a column. -/
def closeBlocks (s : Scanner) (column : Int) : Scanner :=
  if s.inFlow then s
  else
    let closed := (s.indent :: s.outerIndents).takeWhile (column < ·)
    let left := (s.indent :: s.outerIndents).drop closed.length
    { s with
      tokens := s.tokens ++ List.replicate closed.length .blockEnd
      indent := left.headD (-1)
      outerIndents := left.tail }

/-! ## Between tokens -/

/-- Passes blanks, comments and line breaks.  A tab can separate tokens within a line, but does not
indent one. -/
def skipGap (fuel : Nat) (s : Scanner) : Scanner :=
  match fuel with
  | 0 => s
  | fuel + 1 =>
      let isPassed (c : Char) : Bool := c == ' ' || (c == '\t' && (s.inFlow || !s.mayStartKey))
      let source := s.source.skipWhile isPassed
      let source :=
        if source.rest.head? == some '#' then source.comments source.steps else source
      if source.rest.head?.any isBreak then
        skipGap fuel { s with
          source := source.skipLine, mayStartKey := s.mayStartKey || !s.inFlow }
      else { s with source }

/-- Passes a comment on the line of the token before it. -/
def skipComment (s : Scanner) : Scanner :=
  let next := s.source.skipBlanks
  if !s.source.isFresh && next.rest.head? == some '#' then { s with source := next.comment } else s

/-! ## Fetching -/

/-- A token of one character, after which a key may follow or not. -/
def mark (s : Scanner) (t : Token) (mayStartKey : Bool) : Scanner :=
  { (s.push t) with source := s.source.skip, mayStartKey }

def fetchStreamEnd? (s : Scanner) : Option Scanner := do
  -- the end of the text ends its last line
  let source :=
    if s.source.column == 0 then s.source
    else { s.source with column := 0, line := s.source.line + 1 }
  let s ← ({ s with source }.closeBlocks (-1)).forgetKey?
  some { (s.push .streamEnd) with mayStartKey := false }

def fetchDirective? (s : Scanner) : Option Scanner := do
  let s ← (s.closeBlocks (-1)).forgetKey?
  let (t, source) ← Lex.directive? s.source.skip
  some { (s.push t) with source, mayStartKey := false }

def fetchDocumentMark? (s : Scanner) (t : Token) : Option Scanner := do
  let s ← (s.closeBlocks (-1)).forgetKey?
  some { (s.push t) with source := s.source.skipN 3, mayStartKey := false }

def fetchFlowStart? (s : Scanner) (t : Token) : Option Scanner := do
  let s ← s.saveKey?
  if maxLevel ≤ s.flowLevel then none
  else
    let s := s.mark t true
    some { s with keyStarts := none :: s.keyStarts }

def fetchFlowEnd? (s : Scanner) (t : Token) : Option Scanner := do
  let s ← s.forgetKey?
  let keyStarts := if s.inFlow then s.keyStarts.tail else s.keyStarts
  some { (s.mark t false) with keyStarts }

def fetchFlowEntry? (s : Scanner) : Option Scanner :=
  s.forgetKey?.map fun s => s.mark .flowEntry true

def fetchBlockEntry? (s : Scanner) : Option Scanner := do
  let s ←
    if s.inFlow then some s
    else if !s.mayStartKey then none
    else s.openBlock? s.source.column none .blockSequenceStart
  s.forgetKey?.map fun s => s.mark .blockEntry true

def fetchKey? (s : Scanner) : Option Scanner := do
  let s ←
    if s.inFlow then some s
    else if !s.mayStartKey then none
    else s.openBlock? s.source.column none .blockMappingStart
  s.forgetKey?.map fun s => s.mark .key (!s.inFlow)

def fetchValue? (s : Scanner) : Option Scanner :=
  match s.keyStart? with
  | some k =>
      if s.isCurrent k then do
        -- the tokens made since are not touched: the key goes in before the one that began it
        let s ← (s.insert k.number .key).openBlock? k.column (some k.number) .blockMappingStart
        some ((s.setKeyStart none).mark .value false)
      else if k.isRequired then none
      else complex (s.setKeyStart none)
  | none => complex s
where
  /-- The value of a key that is no simple one. -/
  complex (s : Scanner) : Option Scanner := do
    let s ←
      if s.inFlow then some s
      else if !s.mayStartKey then none
      else s.openBlock? s.source.column none .blockMappingStart
    some (s.mark .value (!s.inFlow))

def fetchName? (s : Scanner) (t : String → Token) : Option Scanner := do
  let s ← s.saveKey?
  let (name, source) ← Lex.name? s.source.skip
  some { (s.push (t name)) with source, mayStartKey := false }

def fetchTag? (s : Scanner) : Option Scanner := do
  let s ← s.saveKey?
  let (t, source) ← Lex.tag? s.source
  some { (s.push t) with source, mayStartKey := false }

def fetchBlock? (s : Scanner) (isFolded : Bool) : Option Scanner := do
  let s ← s.forgetKey?
  let (text, source) ← Lex.block? isFolded s.indent s.source.skip
  some { (s.push (.scalar false (String.ofList text))) with source, mayStartKey := true }

def fetchQuoted? (s : Scanner) (isSingle : Bool) : Option Scanner := do
  let s ← s.saveKey?
  let (text, source) ← Lex.quoted? s.source.steps isSingle [] s.source.skip
  some { (s.push (.scalar false (String.ofList text))) with source, mayStartKey := false }

def fetchPlain? (s : Scanner) : Option Scanner := do
  let s ← s.saveKey?
  let (text, isBroken, source) ←
    Lex.plain? s.source.steps s.inFlow (s.indent + 1).toNat [] {} s.source
  some { (s.push (.scalar true (String.ofList text))) with source, mayStartKey := isBroken }

/-- Characters that begin no unquoted scalar by themselves. -/
def isReservedStart (c : Char) : Bool :=
  "-?:,[]\x7b\x7d#&*!|>'\"%@\x60".toList.contains c || isGapChar c || isBreak c

/-- Makes the token that begins with a character. -/
def fetchFrom? (s : Scanner) (c : Char) (rest : List Char) : Option Scanner :=
  if c == '[' then s.fetchFlowStart? .flowSequenceStart
  else if c == '\x7b' then s.fetchFlowStart? .flowMappingStart
  else if c == ']' then s.fetchFlowEnd? .flowSequenceEnd
  else if c == '\x7d' then s.fetchFlowEnd? .flowMappingEnd
  else if c == ',' then s.fetchFlowEntry?
  else if c == '-' && atEdge rest then s.fetchBlockEntry?
  else if c == '?' && (s.inFlow || atEdge rest) then s.fetchKey?
  else if c == ':' && (s.inFlow || atEdge rest) then s.fetchValue?
  else if c == '*' then s.fetchName? .alias
  else if c == '&' then s.fetchName? .anchor
  else if c == '!' then s.fetchTag?
  else if c == '|' && !s.inFlow then s.fetchBlock? false
  else if c == '>' && !s.inFlow then s.fetchBlock? true
  else if c == '\'' then s.fetchQuoted? true
  else if c == '"' then s.fetchQuoted? false
  else if !isReservedStart c || c == '-' || ((c == '?' || c == ':') && !s.inFlow) then s.fetchPlain?
  else none

/-- Makes the next token, with those that go before it. -/
def fetch? (s : Scanner) : Option Scanner :=
  let s := s.skipGap s.source.steps
  let s := s.closeBlocks s.source.column
  match s.source.rest with
  | [] => s.fetchStreamEnd?
  | c :: rest =>
      if s.source.column == 0 && c == '%' then s.fetchDirective?
      else if s.source.isDocumentMark then
        s.fetchDocumentMark? (if c == '-' then .documentStart else .documentEnd)
      else
        (s.fetchFrom? c rest).map fun s =>
          if s.tokens.getLast? == some .blockEntry then s else s.skipComment

/-! ## Asking -/

/-- The number of tokens that are made before the first of them is given away. -/
def lookahead : Nat := 3

/-- Makes tokens until the first one is decided. -/
def fill? (fuel : Nat) (s : Scanner) : Option Scanner :=
  match fuel with
  | 0 => none
  | fuel + 1 =>
      if s.tokens.length < lookahead then s.fetch?.bind (fill? fuel)
      else
        -- a token that may still begin a key is not given away, since another would have to go
        -- before it
        match s.keyStarts.find? (·.any (·.number == s.passed)) with
        | some (some k) =>
            if s.isCurrent k then s.fetch?.bind (fill? fuel)
            else if k.isRequired then none
            else some s
        | _ => some s

/-- The next token. -/
def peek? (s : Scanner) : Option (Token × Scanner) := do
  let s ← fill? s.source.steps s
  some (s.tokens.headD .streamEnd, s)

/-- Passes the next token. -/
def drop (s : Scanner) : Scanner :=
  { s with tokens := s.tokens.tail, passed := s.passed + 1 }

end Scanner
end Yaml
end ApiPages
