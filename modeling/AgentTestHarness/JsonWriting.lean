import AgentTestHarness.PyJson

/-! `json.dumps` with its default settings: `", "` and `": "` as separators, and everything
that is not printable ASCII escaped. -/
namespace AgentTestHarness.JsonWriting
open PyText PyJson

/-- Four lower-case hexadecimal digits. -/
def hex4 (n : ℕ) : Text :=
  [n / 4096 % 16, n / 256 % 16, n / 16 % 16, n % 16].map Nat.digitChar

def unicodeEscape (n : ℕ) : Text := '\\' :: 'u' :: hex4 n

/-- Beyond the basic plane a character is written as a pair of surrogates. -/
def escapeChar (c : Char) : Text :=
  if c = '"' then ['\\', '"']
  else if c = '\\' then ['\\', '\\']
  else if c = '\n' then ['\\', 'n']
  else if c = '\r' then ['\\', 'r']
  else if c = '\t' then ['\\', 't']
  else if c = '\x08' then ['\\', 'b']
  else if c = '\x0c' then ['\\', 'f']
  else if ' ' ≤ c ∧ c ≤ '~' then [c]
  else if c.toNat < 0x10000 then unicodeEscape c.toNat
  else unicodeEscape (0xd800 + (c.toNat - 0x10000) / 0x400) ++
    unicodeEscape (0xdc00 + (c.toNat - 0x10000) % 0x400)

def escape : CodePoint → Text
  | .ch c => escapeChar c
  | .surrogate n => unicodeEscape (0xd800 + n)

def dumpsStr (s : Str) : Text := '"' :: s.flatMap escape ++ ['"']

def dumpsInt (n : ℤ) : Text :=
  if n < 0 then '-' :: Nat.toDigits 10 n.natAbs else Nat.toDigits 10 n.natAbs

mutual
def dumps : Json → Text
  | .null => "null".toList
  | .bool true => "true".toList
  | .bool false => "false".toList
  | .int n => dumpsInt n
  | .float literal => literal
  | .str s => dumpsStr s
  | .arr [] => "[]".toList
  | .arr (x :: xs) => '[' :: dumps x ++ dumpsItems xs ++ [']']
  | .obj [] => "\x7b\x7d".toList
  | .obj ((k, v) :: ms) =>
      '{' :: dumpsStr k ++ ": ".toList ++ dumps v ++ dumpsMembers ms ++ ['}']
/-- The items after the first. -/
def dumpsItems : List Json → Text
  | [] => []
  | x :: xs => ", ".toList ++ dumps x ++ dumpsItems xs
def dumpsMembers : List (Str × Json) → Text
  | [] => []
  | (k, v) :: ms => ", ".toList ++ dumpsStr k ++ ": ".toList ++ dumps v ++ dumpsMembers ms
end

/-- The text of a nonempty object opens with its first key. -/
theorem dumps_cons (k : Str) (v : Json) (ms : List (Str × Json)) :
    ∃ rest, dumps (.obj ((k, v) :: ms)) = '{' :: '"' :: rest :=
  ⟨_, by simp only [dumps, dumpsStr, List.cons_append]; rfl⟩

end AgentTestHarness.JsonWriting
