import AgentTestHarness.PyJson

/-! JSON texts as trees that keep every character: rendering gives the text back, and a
separate function gives the value `json.loads` makes of it. -/
namespace AgentTestHarness.JsonText
open PyText OrderedDict PyJson

def isSpace (c : Char) : Bool := c == ' ' || c == '\t' || c == '\n' || c == '\r'

/-- The characters that end a number or a keyword. -/
def endsWord (c : Char) : Bool :=
  isSpace c || c == ',' || c == ':' || c == ']' || c == '}' || c == '"' || c == '[' || c == '{'

/-- What precedes the value of a member: its name with the whitespace around name and colon. -/
structure Label where
  before : Text
  raw : Text
  afterKey : Text
  beforeValue : Text
  deriving DecidableEq

mutual
inductive Tree
  | word (w : Text)
  | string (raw : Text)
  | emptyArray (pad : Text)
  | array (items : Items)
  | emptyObject (pad : Text)
  | object (members : Members)
inductive Items
  | last (before : Text) (t : Tree) (after : Text)
  | more (before : Text) (t : Tree) (after : Text) (rest : Items)
inductive Members
  | last (label : Label) (t : Tree) (after : Text)
  | more (label : Label) (t : Tree) (after : Text) (rest : Members)
end

def quoted (raw : Text) : Text := '"' :: raw ++ ['"']

def Label.render (l : Label) : Text :=
  l.before ++ quoted l.raw ++ l.afterKey ++ ':' :: l.beforeValue

mutual
def Tree.render : Tree → Text
  | .word w => w
  | .string raw => quoted raw
  | .emptyArray pad => '[' :: pad ++ [']']
  | .array items => '[' :: items.render ++ [']']
  | .emptyObject pad => '{' :: pad ++ ['}']
  | .object members => '{' :: members.render ++ ['}']
def Items.render : Items → Text
  | .last before t after => before ++ t.render ++ after
  | .more before t after rest => before ++ t.render ++ after ++ ',' :: rest.render
def Members.render : Members → Text
  | .last label t after => label.render ++ t.render ++ after
  | .more label t after rest => label.render ++ t.render ++ after ++ ',' :: rest.render
end

/-! Strings. -/

def hexDigit (c : Char) : Option ℕ :=
  if '0' ≤ c ∧ c ≤ '9' then some (c.toNat - '0'.toNat)
  else if 'a' ≤ c ∧ c ≤ 'f' then some (c.toNat - 'a'.toNat + 10)
  else if 'A' ≤ c ∧ c ≤ 'F' then some (c.toNat - 'A'.toNat + 10)
  else none

/-- A character of a string literal, or the code unit of a `\u` escape. -/
inductive Piece
  | lit (c : Char)
  | unit (n : ℕ)
  deriving DecidableEq

def simpleEscape (c : Char) : Option Char :=
  if c = '"' then some '"'
  else if c = '\\' then some '\\'
  else if c = '/' then some '/'
  else if c = 'b' then some '\x08'
  else if c = 'f' then some '\x0c'
  else if c = 'n' then some '\n'
  else if c = 'r' then some '\r'
  else if c = 't' then some '\t'
  else none

/-- Control characters are not allowed in a string. -/
def pieces : Text → Option (List Piece)
  | [] => some []
  | '\\' :: 'u' :: a :: b :: c :: d :: rest =>
    match hexDigit a, hexDigit b, hexDigit c, hexDigit d with
    | some a, some b, some c, some d =>
        (pieces rest).map (.unit (4096 * a + 256 * b + 16 * c + d) :: ·)
    | _, _, _, _ => none
  | '\\' :: e :: rest => (simpleEscape e).bind fun c => (pieces rest).map (.lit c :: ·)
  | c :: rest => if c < ' ' ∨ c = '\\' then none else (pieces rest).map (.lit c :: ·)

def codeUnit (n : ℕ) : CodePoint :=
  if h : 0xd800 ≤ n ∧ n < 0xe000 then .surrogate ⟨n - 0xd800, by omega⟩ else .ch (Char.ofNat n)

/-- A high surrogate and a low one make one character. -/
def joinPieces : List Piece → Str
  | [] => []
  | .lit c :: ps => .ch c :: joinPieces ps
  | [.unit n] => [codeUnit n]
  | .unit h :: .lit c :: ps => codeUnit h :: .ch c :: joinPieces ps
  | .unit h :: .unit l :: ps =>
    if 0xd800 ≤ h ∧ h < 0xdc00 ∧ 0xdc00 ≤ l ∧ l < 0xe000 then
      .ch (Char.ofNat (0x10000 + 0x400 * (h - 0xd800) + (l - 0xdc00))) :: joinPieces ps
    else codeUnit h :: joinPieces (.unit l :: ps)

def decode (raw : Text) : Option Str := (pieces raw).map joinPieces

/-! Numbers and keywords. -/

def validExponent : Text → Bool
  | [] => true
  | e :: r =>
    let digits := if r.head? = some '+' ∨ r.head? = some '-' then r.tail else r
    (e == 'e' || e == 'E') && digits != [] && digits.all Char.isDigit

def validFraction (r : Text) : Bool :=
  if r.head? = some '.' then
    r.tail.takeWhile Char.isDigit != [] && validExponent (r.tail.dropWhile Char.isDigit)
  else validExponent r

def natValue (digits : Text) : ℕ := digits.foldl (fun n c => 10 * n + (c.toNat - '0'.toNat)) 0

def readNumber (w : Text) : Option Json :=
  let negative := w.head? = some '-'
  let u := if negative then w.tail else w
  let digits := u.takeWhile Char.isDigit
  let rest := u.dropWhile Char.isDigit
  if digits = [] ∨ (digits.head? = some '0' ∧ digits.length ≠ 1) then none
  else if rest = [] then
    some (.int (if negative then -(natValue digits : ℤ) else natValue digits))
  else if validFraction rest then some (.float w) else none

def readWord (w : Text) : Option Json :=
  if w = "null".toList then some .null
  else if w = "true".toList then some (.bool true)
  else if w = "false".toList then some (.bool false)
  else if w = "NaN".toList ∨ w = "Infinity".toList ∨ w = "-Infinity".toList then some (.float w)
  else readNumber w

/-! Values. -/

/-- The dictionary of a list of members: a repeated name has its last value. -/
def dict (members : List (Str × Json)) : List (Str × Json) :=
  members.foldl (fun d m => assign m.1 m.2 d) []

mutual
def Tree.value : Tree → Option Json
  | .word w => readWord w
  | .string raw => (decode raw).map .str
  | .emptyArray _ => some (.arr [])
  | .array items => items.values.map .arr
  | .emptyObject _ => some (.obj [])
  | .object members => members.pairs.map fun ms => .obj (dict ms)
def Items.values : Items → Option (List Json)
  | .last _ t _ => t.value.map ([·])
  | .more _ t _ rest => t.value.bind fun v => rest.values.map (v :: ·)
def Members.pairs : Members → Option (List (Str × Json))
  | .last label t _ => (decode label.raw).bind fun k => t.value.map fun v => [(k, v)]
  | .more label t _ rest =>
    (decode label.raw).bind fun k => t.value.bind fun v => rest.pairs.map ((k, v) :: ·)
end

/-! Well-formed trees. -/

/-- The raw text of a string up to its closing quote, and what follows. -/
def scanString : Text → Option (Text × Text)
  | [] => none
  | '"' :: rest => some ([], rest)
  | '\\' :: e :: rest => (scanString rest).map fun (raw, rest) => ('\\' :: e :: raw, rest)
  | c :: rest => (scanString rest).map fun (raw, rest) => (c :: raw, rest)

/-- No quote inside the raw text closes the string. -/
def Closed (raw : Text) : Prop := ∀ rest, scanString (raw ++ '"' :: rest) = some (raw, rest)

def Pad (s : Text) : Prop := ∀ c ∈ s, isSpace c = true

structure Label.Lexical (l : Label) : Prop where
  before : Pad l.before
  raw : Closed l.raw
  afterKey : Pad l.afterKey
  beforeValue : Pad l.beforeValue

mutual
def Tree.Lexical : Tree → Prop
  | .word w => w ≠ [] ∧ ∀ c ∈ w, endsWord c = false
  | .string raw => Closed raw
  | .emptyArray pad => Pad pad
  | .array items => items.Lexical
  | .emptyObject pad => Pad pad
  | .object members => members.Lexical
def Items.Lexical : Items → Prop
  | .last before t after => Pad before ∧ t.Lexical ∧ Pad after
  | .more before t after rest => Pad before ∧ t.Lexical ∧ Pad after ∧ rest.Lexical
def Members.Lexical : Members → Prop
  | .last label t after => label.Lexical ∧ t.Lexical ∧ Pad after
  | .more label t after rest => label.Lexical ∧ t.Lexical ∧ Pad after ∧ rest.Lexical
end

end AgentTestHarness.JsonText
