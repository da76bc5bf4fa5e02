import PipelineScript.Toml.Word

/-! # Reading TOML

Readers take what is left of the text and give what they read with what is left then, or nothing if
the text is no TOML. -/

namespace PipelineScript.Toml

/-- How deep values may nest, and how many parts a key may have. -/
def depthLimit : Nat := 79

/-! ## Blanks and comments -/

def isSpace (c : Char) : Bool := c == ' ' || c == '\t'

def skipSpaces (cs : List Char) : List Char := cs.dropWhile isSpace

/-- What may stand in a comment or between single quotes. -/
def isPlain (c : Char) : Bool := c == '\t' || (' ' ≤ c && c != '\x7f')

def lineEnd? : List Char → Option (List Char)
  | [] => some []
  | '\n' :: rest => some rest
  | '\r' :: '\n' :: rest => some rest
  | _ => none

/-- What follows a line that has nothing more on it but a comment. -/
def restOfLine? (cs : List Char) : Option (List Char) :=
  match skipSpaces cs with
  | '#' :: rest => lineEnd? (rest.dropWhile isPlain)
  | cs => lineEnd? cs

/-- Blanks, line ends and comments between the items of an array. -/
def skipGaps (inComment : Bool) : List Char → List Char
  | [] => []
  | '\n' :: rest => skipGaps false rest
  | '\r' :: '\n' :: rest => skipGaps false rest
  | c :: rest =>
    if inComment then (if isPlain c then skipGaps true rest else c :: rest)
    else if c = '#' then skipGaps true rest
    else if isSpace c then skipGaps false rest
    else c :: rest

/-! ## Strings -/

abbrev Chunk := List Char × List Char

def consFirst (c : Char) (read : Chunk) : Chunk := (c :: read.1, read.2)

def escape? : Char → Option Char
  | 'b' => some '\x08' | 't' => some '\t' | 'n' => some '\n' | 'f' => some '\x0c'
  | 'r' => some '\r' | '"' => some '"' | '\\' => some '\\'
  | _ => none

/-- The character with the number that the digits give. -/
def charOf? (digits : List Char) : Option Char :=
  if digits.all Text.isHexDigit then
    let n := Numeral.valueOf 16 digits
    if n.isValidChar then some (Char.ofNat n) else none
  else none

def consOption (c? : Option Char) (read : Option Chunk) : Option Chunk :=
  match c?, read with
  | some c, some read => some (consFirst c read)
  | _, _ => none

/-- What follows a double quote, through the next one. -/
def readBasic : List Char → Option Chunk
  | [] => none
  | '"' :: rest => some ([], rest)
  | '\\' :: 'u' :: a :: b :: c :: d :: rest => consOption (charOf? [a, b, c, d]) (readBasic rest)
  | '\\' :: 'U' :: a :: b :: c :: d :: e :: f :: g :: h :: rest =>
    consOption (charOf? [a, b, c, d, e, f, g, h]) (readBasic rest)
  | '\\' :: e :: rest => consOption (escape? e) (readBasic rest)
  | c :: rest => if isPlain c ∧ c ≠ '\\' then (readBasic rest).map (consFirst c) else none

/-- What follows a single quote, through the next one. -/
def readLiteral : List Char → Option Chunk
  | [] => none
  | '\'' :: rest => some ([], rest)
  | c :: rest => if isPlain c then (readLiteral rest).map (consFirst c) else none

/-- Does a backslash before these characters hide the end of its line? -/
def hidesLineEnd (cs : List Char) : Bool :=
  match skipSpaces cs with
  | '\n' :: _ => true
  | '\r' :: '\n' :: _ => true
  | _ => false

/-- What follows three double quotes. Up to two quotes may stand before the closing three. After a
hidden line end, blanks are passed over. -/
def readLongBasic (hidden : Bool) : List Char → Option Chunk
  | [] => none
  | '"' :: '"' :: '"' :: '"' :: '"' :: rest => some (['"', '"'], rest)
  | '"' :: '"' :: '"' :: '"' :: rest => some (['"'], rest)
  | '"' :: '"' :: '"' :: rest => some ([], rest)
  | '\\' :: 'u' :: a :: b :: c :: d :: rest =>
    consOption (charOf? [a, b, c, d]) (readLongBasic false rest)
  | '\\' :: 'U' :: a :: b :: c :: d :: e :: f :: g :: h :: rest =>
    consOption (charOf? [a, b, c, d, e, f, g, h]) (readLongBasic false rest)
  | '\\' :: e :: rest =>
    if hidesLineEnd (e :: rest) then readLongBasic true rest
    else consOption (escape? e) (readLongBasic false rest)
  | '\r' :: '\n' :: rest =>
    if hidden then readLongBasic true rest
    else (readLongBasic false rest).map (consFirst '\n')
  | c :: rest =>
    if hidden ∧ (isSpace c ∨ c = '\n') then readLongBasic true rest
    else if (isPlain c ∨ c = '\n') ∧ c ≠ '\\' then
      (readLongBasic false rest).map (consFirst c)
    else none

/-- What follows three single quotes. -/
def readLongLiteral : List Char → Option Chunk
  | [] => none
  | '\'' :: '\'' :: '\'' :: '\'' :: '\'' :: rest => some (['\'', '\''], rest)
  | '\'' :: '\'' :: '\'' :: '\'' :: rest => some (['\''], rest)
  | '\'' :: '\'' :: '\'' :: rest => some ([], rest)
  | '\r' :: '\n' :: rest => (readLongLiteral rest).map (consFirst '\n')
  | c :: rest =>
    if isPlain c ∨ c = '\n' then (readLongLiteral rest).map (consFirst c) else none

/-- A line end right after three quotes does not count. -/
def skipFirstLineEnd : List Char → List Char
  | '\n' :: rest => rest
  | '\r' :: '\n' :: rest => rest
  | cs => cs

/-- What follows an opening quote. -/
def readQuoted (quote : Char) (cs : List Char) : Option Chunk :=
  match quote, cs with
  | '"', '"' :: '"' :: rest => readLongBasic false (skipFirstLineEnd rest)
  | '"', rest => readBasic rest
  | _, '\'' :: '\'' :: rest => readLongLiteral (skipFirstLineEnd rest)
  | _, rest => readLiteral rest

/-! ## Keys -/

def isBare (c : Char) : Bool :=
  Text.isAsciiLetter c || Text.isAsciiDigit c || c == '_' || c == '-'

def readKeyPart (cs : List Char) : Option (String × List Char) :=
  match cs with
  | '"' :: rest => (readBasic rest).map fun (key, rest) => (String.ofList key, rest)
  | '\'' :: rest => (readLiteral rest).map fun (key, rest) => (String.ofList key, rest)
  | cs =>
    let key := cs.takeWhile isBare
    if key = [] then none else some (String.ofList key, cs.drop key.length)

/-- A key of at most so many parts: all of them but the last, and the last one. -/
def readKey : Nat → List Char → Option ((List String × String) × List Char)
  | 0, _ => none
  | fuel + 1, cs => do
    let (part, rest) ← readKeyPart (skipSpaces cs)
    match skipSpaces rest with
    | '.' :: rest =>
      let ((path, key), rest) ← readKey fuel rest
      some ((part :: path, key), rest)
    | rest => some (([], part), rest)

/-! ## Values -/

/-- A value without quotes and brackets. A blank may stand between a date and a time. -/
def readWord (cs : List Char) : Option (Toml × List Char) :=
  let word := cs.takeWhile isWordPart
  let rest := cs.drop word.length
  match rest with
  | ' ' :: more =>
    let time := more.takeWhile isWordPart
    if isDate word && isZonedTime time then some (.date, more.drop time.length)
    else (word? word).map fun v => (v, rest)
  | rest => (word? word).map fun v => (v, rest)

mutual

/-- A value that may nest `depth` deep. -/
def readValue : Nat → Nat → List Char → Option (Toml × List Char)
  | 0, _, _ => none
  | fuel + 1, depth, cs =>
    match cs, depth with
    | '"' :: rest, _ => (readQuoted '"' rest).map fun (s, rest) => (.str (String.ofList s), rest)
    | '\'' :: rest, _ => (readQuoted '\'' rest).map fun (s, rest) => (.str (String.ofList s), rest)
    | '[' :: rest, depth + 1 =>
      (readItems fuel depth rest).map fun (items, rest) => (.arr items, rest)
    | '{' :: rest, depth + 1 =>
      match skipSpaces rest with
      | '}' :: rest => some (.table .inline [], rest)
      | rest =>
        (readPairs fuel depth [] rest).map fun (entries, rest) => (.table .inline entries, rest)
    | cs, _ => readWord cs

/-- The items of an array, through the closing bracket. -/
def readItems : Nat → Nat → List Char → Option (List Toml × List Char)
  | 0, _, _ => none
  | fuel + 1, depth, cs =>
    match skipGaps false cs with
    | ']' :: rest => some ([], rest)
    | cs => do
      let (item, rest) ← readValue fuel depth cs
      match skipGaps false rest with
      | ',' :: rest =>
        let (items, rest) ← readItems fuel depth rest
        some (item :: items, rest)
      | ']' :: rest => some ([item], rest)
      | _ => none

/-- The pairs of a table in braces, through the closing brace, added to `entries`. -/
def readPairs : Nat → Nat → Table Toml → List Char → Option (Table Toml × List Char)
  | 0, _, _, _ => none
  | fuel + 1, depth, entries, cs => do
    let ((path, key), rest) ← readKey depthLimit cs
    match rest with
    | '=' :: rest =>
      let (value, rest) ← readValue fuel depth (skipSpaces rest)
      let entries ← addPair path key value entries
      match skipSpaces rest with
      | ',' :: rest => readPairs fuel depth entries rest
      | '}' :: rest => some (entries, rest)
      | _ => none
    | _ => none

end

/-! ## Documents -/

/-- A line of a document and what follows it. Pairs belong to the table that was opened last. -/
def readLine (fuel : Nat) (root : Table Toml) (current : List String) (cs : List Char) :
    Option ((Table Toml × List String) × List Char) :=
  match cs with
  | '[' :: '[' :: rest => do
    let ((path, key), rest) ← readKey depthLimit rest
    match rest with
    | ']' :: ']' :: rest =>
      let root ← openElement path key root
      let rest ← restOfLine? rest
      some ((root, path ++ [key]), rest)
    | _ => none
  | '[' :: rest => do
    let ((path, key), rest) ← readKey depthLimit rest
    match rest with
    | ']' :: rest =>
      let root ← openTable path key root
      let rest ← restOfLine? rest
      some ((root, path ++ [key]), rest)
    | _ => none
  | cs => do
    let ((path, key), rest) ← readKey depthLimit cs
    match rest with
    | '=' :: rest =>
      let (value, rest) ← readValue fuel depthLimit (skipSpaces rest)
      let root ← within false (fun _ entries => addPair path key value entries) current .header root
      let rest ← restOfLine? rest
      some ((root, current), rest)
    | _ => none

def readLines : Nat → Table Toml → List String → List Char → Option (Table Toml)
  | 0, _, _, _ => none
  | fuel + 1, root, current, cs =>
    match skipSpaces cs with
    | [] => some root
    | c :: rest =>
      if c = '\n' ∨ c = '\r' ∨ c = '#' then restOfLine? (c :: rest) >>= readLines fuel root current
      else do
        let ((root, current), rest) ← readLine (2 * rest.length + 4) root current (c :: rest)
        readLines fuel root current rest

/-- The tables of a document. -/
def ofText? (s : String) : Option (Table Toml) :=
  let cs := match s.toList with
    | '\ufeff' :: rest => rest
    | cs => cs
  readLines (cs.length + 1) [] [] cs

/-- The data of a document. -/
def dataOf? (date : Json) (s : String) : Option Json :=
  (ofText? s).map fun entries => .obj (entriesJson date entries)

end PipelineScript.Toml
