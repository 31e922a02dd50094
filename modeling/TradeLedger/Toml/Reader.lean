/-
Reading TOML documents, version 1.0. Values are nested at most 79 deep, and a dotted key has at most
79 parts.
-/
import TradeLedger.Toml.Scalar

namespace TradeLedger.Toml

/-! ## Blanks and comments -/

def isBlank (c : Char) : Bool := c = ' ' || c = '\t'

def skipBlank (cs : List Char) : List Char := cs.dropWhile isBlank

/-- A character that needs no escape: no control but the tab. -/
def isPlain (c : Char) : Bool := c = '\t' || (' ' ≤ c && c ≤ '~') || 0x80 ≤ c.toNat

/-- Leaves out blanks, comments and ends of lines, and stops at anything else. -/
def skipVoid (inComment : Bool) : List Char → List Char
  | '\r' :: '\n' :: rest => skipVoid false rest
  | '\n' :: rest => skipVoid false rest
  | c :: rest =>
    if inComment then if isPlain c then skipVoid true rest else c :: rest
    else if isBlank c then skipVoid false rest
    else if c = '#' then skipVoid true rest
    else c :: rest
  | [] => []

/-- What follows the end of a line, or of the text. -/
def newline? : List Char → Option (List Char)
  | [] => some []
  | '\n' :: rest => some rest
  | '\r' :: '\n' :: rest => some rest
  | _ => none

/-- What follows a line of which nothing but a comment is left. -/
def endLine? (cs : List Char) : Option (List Char) :=
  match skipBlank cs with
  | '#' :: rest => newline? (rest.dropWhile isPlain)
  | rest => newline? rest

/-! ## Texts -/

def hexNumber? (cs : List Char) : Option Nat :=
  if cs.all Scalar.isHexDigit then some (cs.foldl (fun n c => 16 * n + Scalar.digitValue c) 0)
  else none

/-- The character with a code that is written out. -/
def coded? (cs : List Char) : Option Char := do
  let n ← hexNumber? cs
  if h : n.isValidChar then some (Char.ofNatAux n h) else none

/-- What a letter after a backslash stands for. -/
def escaped? : Char → Option Char
  | 'b' => some '\x08'
  | 't' => some '\t'
  | 'n' => some '\n'
  | 'f' => some '\x0c'
  | 'r' => some '\r'
  | '"' => some '"'
  | '\\' => some '\\'
  | _ => none

/-- Puts a character in front of a text that was read. -/
def before (c : Char) : Option (List Char × List Char) → Option (List Char × List Char) :=
  Option.map fun (s, rest) => (c :: s, rest)

/-- A text with escapes, up to its quote. -/
def basic : List Char → Option (List Char × List Char)
  | [] => none
  | '"' :: rest => some ([], rest)
  | '\\' :: 'u' :: a :: b :: c :: d :: rest => do before (← coded? [a, b, c, d]) (basic rest)
  | '\\' :: 'U' :: a :: b :: c :: d :: e :: f :: g :: h :: rest => do
    before (← coded? [a, b, c, d, e, f, g, h]) (basic rest)
  | '\\' :: e :: rest => do before (← escaped? e) (basic rest)
  | c :: rest => if isPlain c && c ≠ '\\' then before c (basic rest) else none

/-- Whether the line holds nothing more. -/
def lineEnds (cs : List Char) : Bool :=
  match skipBlank cs with
  | '\n' :: _ => true
  | '\r' :: '\n' :: _ => true
  | _ => false

/-- A text of several lines with escapes, up to three quotes; one or two more belong to the text.
After a backslash at the end of a line, blanks and ends of lines are left out. -/
def basicLines (trimming : Bool) : List Char → Option (List Char × List Char)
  | [] => none
  | '"' :: '"' :: '"' :: '"' :: '"' :: rest => some (['"', '"'], rest)
  | '"' :: '"' :: '"' :: '"' :: rest => some (['"'], rest)
  | '"' :: '"' :: '"' :: rest => some ([], rest)
  | '\r' :: '\n' :: rest =>
    if trimming then basicLines true rest else before '\n' (basicLines false rest)
  | '\n' :: rest =>
    if trimming then basicLines true rest else before '\n' (basicLines false rest)
  | '\\' :: 'u' :: a :: b :: c :: d :: rest => do
    before (← coded? [a, b, c, d]) (basicLines false rest)
  | '\\' :: 'U' :: a :: b :: c :: d :: e :: f :: g :: h :: rest => do
    before (← coded? [a, b, c, d, e, f, g, h]) (basicLines false rest)
  | '\\' :: e :: rest =>
    if lineEnds (e :: rest) then basicLines true (e :: rest)
    else do before (← escaped? e) (basicLines false rest)
  | c :: rest =>
    if trimming && isBlank c then basicLines true rest
    else if isPlain c && c ≠ '\\' then before c (basicLines false rest)
    else none

/-- A text without escapes, up to its quote. -/
def literal : List Char → Option (List Char × List Char)
  | [] => none
  | '\'' :: rest => some ([], rest)
  | c :: rest => if isPlain c then before c (literal rest) else none

/-- A text of several lines without escapes, up to three quotes; one or two more belong to it. -/
def literalLines : List Char → Option (List Char × List Char)
  | [] => none
  | '\'' :: '\'' :: '\'' :: '\'' :: '\'' :: rest => some (['\'', '\''], rest)
  | '\'' :: '\'' :: '\'' :: '\'' :: rest => some (['\''], rest)
  | '\'' :: '\'' :: '\'' :: rest => some ([], rest)
  | '\r' :: '\n' :: rest => before '\n' (literalLines rest)
  | '\n' :: rest => before '\n' (literalLines rest)
  | c :: rest => if isPlain c then before c (literalLines rest) else none

/-- An end of line right after the opening quotes does not count. -/
def dropNewline : List Char → List Char
  | '\n' :: rest => rest
  | '\r' :: '\n' :: rest => rest
  | cs => cs

/-- A text in quotes of any kind. -/
def text? : List Char → Option (List Char × List Char)
  | '"' :: '"' :: '"' :: rest => basicLines false (dropNewline rest)
  | '"' :: rest => basic rest
  | '\'' :: '\'' :: '\'' :: rest => literalLines (dropNewline rest)
  | '\'' :: rest => literal rest
  | _ => none

/-! ## Keys -/

def isBare (c : Char) : Bool := c.isAlphanum || c = '_' || c = '-'

/-- One part of a key. -/
def simpleKey? : List Char → Option (String × List Char)
  | '"' :: rest => do
    let (s, rest) ← basic rest
    return (String.ofList s, rest)
  | '\'' :: rest => do
    let (s, rest) ← literal rest
    return (String.ofList s, rest)
  | cs =>
    let k := cs.takeWhile isBare
    if k = [] then none else some (String.ofList k, cs.drop k.length)

/-- A key of at most `most` parts: the parts before the last, and the last. -/
def key? : (most : Nat) → List Char → Option ((List String × String) × List Char)
  | 0, _ => none
  | most + 1, cs => do
    let (k, rest) ← simpleKey? (skipBlank cs)
    match skipBlank rest with
    | '.' :: rest => do
      let ((path, last), rest) ← key? most rest
      return ((k :: path, last), rest)
    | rest => return (([], k), rest)

/-! ## Values -/

/-- How deep values may be nested, and how many parts a key may have. -/
def maxDepth : Nat := 79

/-- A scalar without quotes. A date and a time may have a blank between them. -/
def scalar? (cs : List Char) : Option (Toml × List Char) := do
  let token := cs.takeWhile Scalar.isMember
  let rest := cs.drop token.length
  let v ← Scalar.ofChars? token
  match Scalar.isDate token, rest with
  | true, ' ' :: more =>
    let time := more.takeWhile Scalar.isMember
    if Scalar.isTimeOfDate time then return (.moment, more.drop time.length) else return (v, rest)
  | _, _ => return (v, rest)

/-- The items of a list, up to its bracket. -/
def items (value : List Char → Option (Toml × List Char)) :
    (most : Nat) → List Char → Option (List Toml × List Char)
  | 0, _ => none
  | most + 1, cs =>
    match skipVoid false cs with
    | ']' :: rest => some ([], rest)
    | cs => do
      let (v, rest) ← value cs
      match skipVoid false rest with
      | ',' :: rest => do
        let (vs, rest) ← items value most rest
        return (v :: vs, rest)
      | ']' :: rest => return ([v], rest)
      | _ => none

/-- A key with its value. -/
def member (value : List Char → Option (Toml × List Char)) (cs : List Char) :
    Option (((List String × String) × Toml) × List Char) := do
  let (k, rest) ← key? maxDepth cs
  match skipBlank rest with
  | '=' :: rest => do
    let (v, rest) ← value (skipBlank rest)
    return ((k, v), rest)
  | _ => none

/-- The members of a table in one piece that has some, up to its brace. -/
def members (value : List Char → Option (Toml × List Char)) :
    (most : Nat) → Members → List Char → Option (Members × List Char)
  | 0, _, _ => none
  | most + 1, ms, cs => do
    let (((path, k), v), rest) ← member value cs
    let ms ← addValue path k v ms
    match skipBlank rest with
    | ',' :: rest => members value most ms rest
    | '\x7d' :: rest => return (ms, rest)
    | _ => none

/-- A value with at most `depth` levels of nesting. -/
def value? (depth : Nat) (cs : List Char) : Option (Toml × List Char) :=
  match cs with
  | '"' :: _ | '\'' :: _ => do
    let (s, rest) ← text? cs
    return (.text (String.ofList s), rest)
  | '[' :: rest =>
    match depth with
    | 0 => none
    | depth + 1 => do
      let (vs, rest) ← items (fun cs => value? depth cs) cs.length rest
      return (.list vs, rest)
  | '\x7b' :: rest =>
    match depth with
    | 0 => none
    | depth + 1 =>
      match skipBlank rest with
      | '\x7d' :: rest => some (.table .inline [], rest)
      | rest => do
        let (ms, rest) ← members (fun cs => value? depth cs) cs.length [] rest
        return (.table .inline ms, rest)
  | cs => scalar? cs
termination_by structural depth

/-! ## Documents -/

/-- A document up to some line: its root, and the path of the table that values go into. -/
structure Draft where
  root : Members
  path : List String

/-- A header of a table, after its bracket. -/
def header (d : Draft) (cs : List Char) : Option (Draft × List Char) := do
  let ((path, k), rest) ← key? maxDepth cs
  match skipBlank rest with
  | ']' :: rest => do
    let root ← addTable path k d.root
    return (⟨root, path ++ [k]⟩, rest)
  | _ => none

/-- A header of a table in a list of tables, after its brackets. -/
def elementHeader (d : Draft) (cs : List Char) : Option (Draft × List Char) := do
  let ((path, k), rest) ← key? maxDepth cs
  match skipBlank rest with
  | ']' :: ']' :: rest => do
    let root ← addElement path k d.root
    return (⟨root, path ++ [k]⟩, rest)
  | _ => none

/-- A key and its value go into the table of the last header. -/
def entry (d : Draft) (cs : List Char) : Option (Draft × List Char) := do
  let (((path, k), v), rest) ← member (value? maxDepth) cs
  let root ← change false (fun _ ms => addValue path k v ms) d.path .header d.root
  return (⟨root, d.path⟩, rest)

/-- At most `most` lines that are not void. -/
def lines : (most : Nat) → Draft → List Char → Option Members
  | most, d, cs =>
    match skipVoid false cs with
    | [] => some d.root
    | cs =>
      match most with
      | 0 => none
      | most + 1 => do
        let (d, rest) ←
          match cs with
          | '[' :: '[' :: rest => elementHeader d rest
          | '[' :: rest => header d rest
          | cs => entry d cs
        lines most d (← endLine? rest)

/-- A mark of the order of octets at the start does not count. -/
def dropMark : List Char → List Char
  | c :: rest => if c.toNat = 0xFEFF then rest else c :: rest
  | [] => []

/-- The root table of a document. -/
def parse? (s : String) : Option Members :=
  let cs := dropMark s.toList
  lines (cs.length + 1) ⟨[], []⟩ cs

end TradeLedger.Toml
