import Xnu.Serialize.XmlSerialize

namespace Xnu.Serialize

/-! The lexer of `OSUnserializeXML.y`: `getTag`, `getString`, `getNumber`,
`getCFEncodedData`, `getHexData` and `yylex`. Each reads the buffer from
`parseBufferIndex` on, given as the list of the bytes from there to the end of
the buffer, its terminating NUL included; reading past that NUL is the
`overread` outcome. Line numbers are not modelled. -/

/-- What stops a lexer routine: a read past the end of the buffer, or the
routine giving up (`TAG_BAD`, or a `NULL` string). -/
inductive LexError where
  | overread
  | bad
  deriving DecidableEq, Repr

def tagMaxLength : Nat := 32
def tagMaxAttributes : Nat := 32

def isSpace (c : UInt8) : Bool := c == chr ' ' || c == chr '\t'
def isAlpha (c : UInt8) : Bool := (chr 'A' ≤ c && c ≤ chr 'Z') || (chr 'a' ≤ c && c ≤ chr 'z')
def isDigit (c : UInt8) : Bool := chr '0' ≤ c && c ≤ chr '9'
def isAlphaDigit (c : UInt8) : Bool := chr 'a' ≤ c && c ≤ chr 'f'
def isHexDigit (c : UInt8) : Bool := isDigit c || isAlphaDigit c
def isAlphaNumeric (c : UInt8) : Bool := isAlpha c || isDigit c || c == chr '-'

/-- `TAG_START`, `TAG_END` and `TAG_EMPTY`. -/
inductive TagType where
  | startTag
  | endTag
  | emptyTag
  deriving DecidableEq, Repr

/-- What `getTag` returns short of `TAG_BAD`: `TAG_IGNORE`, or a tag with its
name and attributes; each with the text after it. -/
inductive GetTag where
  | ignore (rest : List UInt8)
  | tag (type : TagType) (name : List UInt8) (attributes : List (List UInt8 × List UInt8)) (rest : List UInt8)
  deriving DecidableEq, Repr

/-- `while (isSpace(c)) c = nextChar();` -/
def skipSpaces : List UInt8 → Except LexError (List UInt8)
  | [] => .error .overread
  | c :: rest => if isSpace c then skipSpaces rest else .ok (c :: rest)

/-- `while (isAlphaNumeric(c))` copying a tag's or an attribute's name, which
gives up once the name reaches `TAG_MAX_LENGTH - 1` characters. -/
def getTagName (name : List UInt8) : List UInt8 → Except LexError (List UInt8 × List UInt8)
  | [] => .error .overread
  | c :: rest =>
    if isAlphaNumeric c then
      if name.length + 1 ≥ tagMaxLength - 1 then .error .bad else getTagName (name ++ [c]) rest
    else .ok (name, c :: rest)

/-- `while (c != '"')` copying an attribute's value, from the character after
the opening quote; it gives up at `TAG_MAX_LENGTH - 1` characters and when the
next character is a NUL, which it reads after storing the current one. -/
def getTagValue (value : List UInt8) : List UInt8 → Except LexError (List UInt8 × List UInt8)
  | [] => .error .overread
  | c :: rest =>
    if c = chr '"' then .ok (value, rest)
    else if value.length + 1 ≥ tagMaxLength - 1 then .error .bad
    else
      match rest with
      | [] => .error .overread
      | next :: _ => if next = 0 then .error .bad else getTagValue (value ++ [c]) rest

/-- The attribute loop of `getTag`, `attribute = "value"` pairs up to the `>`
or `/` that ends the tag; a tag with `TAG_MAX_ATTRIBUTES` of them is bad. -/
def getTagAttributes (attributes : List (List UInt8 × List UInt8)) (text : List UInt8) :
    Except LexError (List (List UInt8 × List UInt8) × List UInt8) :=
  match text with
  | [] => .error .overread
  | c :: _ =>
    if c = chr '>' ∨ c = chr '/' then .ok (attributes, text)
    else do
      let text ← skipSpaces text
      let (name, text) ← getTagName [] text
      let text ← skipSpaces text
      match text with
      | [] => .error .overread
      | c :: text =>
        if c ≠ chr '=' then .error .bad
        else do
          let text ← skipSpaces text
          match text with
          | [] => .error .overread
          | c :: text =>
            if c ≠ chr '"' then .error .bad
            else do
              let (value, text) ← getTagValue [] text
              if attributes.length + 1 ≥ tagMaxAttributes then .error .bad
              else getTagAttributes (attributes ++ [(name, value)]) text
termination_by tagMaxAttributes - attributes.length

/-- The loop over a `<!` declaration or comment, from its current character:
it ends at `>`, and in a comment only at `-->`. -/
def getTagDeclarationLoop (isComment : Bool) : List UInt8 → Except LexError GetTag
  | [] => .error .overread
  | [c] => if c = 0 then .error .bad else .error .overread
  | c :: rest@(next :: after) =>
    if c = 0 then .error .bad
    else if next = 0 then .error .bad
    else if isComment then
      if next ≠ chr '-' then getTagDeclarationLoop isComment rest
      else
        match after with
        | [] => .error .overread
        | after@(second :: afterSecond) =>
          if second ≠ chr '-' then getTagDeclarationLoop isComment after
          else
            match afterSecond with
            | [] => .error .overread
            | close :: text => if close = chr '>' then .ok (.ignore text) else .error .bad
    else if next = chr '>' then .ok (.ignore after)
    else getTagDeclarationLoop isComment rest

/-- `<!`: a comment when `--` follows, otherwise a declaration, which must
start with a letter. -/
def getTagDeclaration (text : List UInt8) : Except LexError GetTag :=
  match text with
  | [] => .error .overread
  | c :: rest =>
    if c = chr '-' then
      match rest with
      | [] => .error .overread
      | c :: _ =>
        if c = chr '-' then getTagDeclarationLoop true rest
        else if isAlpha c then getTagDeclarationLoop false rest
        else .error .bad
    else if isAlpha c then getTagDeclarationLoop false text
    else .error .bad

/-- The loop over a `<?` processing instruction, from the character after the
last one read: it ends at `?>`, or at a NUL after a `?`. -/
def getTagInstruction : List UInt8 → Except LexError GetTag
  | [] => .error .overread
  | c :: rest =>
    if c = 0 then .error .bad
    else if c ≠ chr '?' then getTagInstruction rest
    else
      match rest with
      | [] => .error .overread
      | c :: rest' =>
        if c = 0 then .ok (.ignore rest)
        else if c = chr '>' then .ok (.ignore rest')
        else getTagInstruction rest'

/-- `getTag(state, tag, &attributeCount, attributes, values)`; `TAG_BAD` is
the error `bad`. -/
def getTag (text : List UInt8) : Except LexError GetTag :=
  match text with
  | [] => .error .overread
  | c :: text =>
    if c ≠ chr '<' then .error .bad
    else
      match text with
      | [] => .error .overread
      | c :: rest =>
        if c = chr '!' then getTagDeclaration rest
        else if c = chr '?' then getTagInstruction rest
        else
          let (type, text) := if c = chr '/' then (TagType.endTag, rest) else (TagType.startTag, text)
          match text with
          | [] => .error .overread
          | c :: _ =>
            if !isAlpha c then .error .bad
            else do
              let (name, text) ← getTagName [] text
              let (attributes, text) ← getTagAttributes [] text
              match text with
              | [] => .error .overread
              | c :: rest =>
                let (type, text) := if c = chr '/' then (TagType.emptyTag, rest) else (type, text)
                match text with
                | [] => .error .overread
                | c :: rest => if c ≠ chr '>' then .error .bad else .ok (.tag type name attributes rest)

/-- A buffer that ends right after the opening quote of an attribute's value:
the value loop stores the terminating NUL and reads the byte after it before
its NUL check, so `getTag`, which `yylex` calls for the first token of
`OSUnserializeXML("<a b=\"")`, reads past the end of the string. -/
theorem getTag_overreads_after_quote : getTag (ascii "<a b=\"" ++ [0]) = .error .overread := by
  have bytes : ascii "<a b=\"" ++ [0] = [60, 97, 32, 98, 61, 34, 0] := by decide
  have name : getTagName [] [97, 32, 98, 61, 34, 0] = .ok ([97], [32, 98, 61, 34, 0]) := by decide
  -- the attribute loop reaches the value at the NUL: `getTagValue [] [0]` reads on
  have attributes : getTagAttributes [] [32, 98, 61, 34, 0] = .error .overread := by
    rw [getTagAttributes]
    decide
  rw [bytes]
  simp [getTag, name, attributes, isAlpha, chr, bind, Except.bind]

/-! `getString`. -/

/-- The scan of `getString` for the `<` that ends the string: the characters
before it and the text from it; a NUL first gives `NULL`. -/
def getStringEnd : List UInt8 → Except LexError (List UInt8 × List UInt8)
  | [] => .error .overread
  | c :: rest =>
    if c = 0 then .error .bad
    else if c = chr '<' then .ok ([], c :: rest)
    else (getStringEnd rest).map fun (str, text) => (c :: str, text)

/-- The copy of `getString`: `&lt;`, `&gt;` and `&amp;` are decoded, and any
other `&`, or one with fewer characters after it than the checks ask for,
gives `NULL`. -/
def getStringEntities : List UInt8 → Except LexError (List UInt8)
  | [] => .ok []
  | c :: rest =>
    if c ≠ chr '&' then (getStringEntities rest).map (c :: ·)
    else if rest.length < 3 then .error .bad
    else
      match rest with
      | c :: t :: semi :: rest' =>
        if c = chr 'l' then
          if t = chr 't' ∧ semi = chr ';' then (getStringEntities rest').map (chr '<' :: ·) else .error .bad
        else if c = chr 'g' then
          if t = chr 't' ∧ semi = chr ';' then (getStringEntities rest').map (chr '>' :: ·) else .error .bad
        else if rest.length - 1 < 3 then .error .bad
        else if c = chr 'a' then
          match rest' with
          | s :: rest'' =>
            if t = chr 'm' ∧ semi = chr 'p' ∧ s = chr ';' then (getStringEntities rest'').map (chr '&' :: ·)
            else .error .bad
          | [] => .error .bad
        else .error .bad
      | _ => .error .bad

/-- `getString(state, &alloc_length)`: the string and the text from the `<`
after it. -/
def getString (text : List UInt8) : Except LexError (List UInt8 × List UInt8) := do
  let (raw, text) ← getStringEnd text
  let str ← getStringEntities raw
  pure (str, text)

/-! `getNumber`. -/

/-- The digit loops of `getNumber` in `unsigned long long`: decimal digits,
or with `hex` the digits `0`–`9` and `a`–`f`. -/
def getNumberDigits (hex : Bool) (n : UInt64) : List UInt8 → Except LexError (UInt64 × List UInt8)
  | [] => .error .overread
  | c :: rest =>
    if hex then
      if isDigit c then getNumberDigits hex (n * 16 + c.toUInt64 - (chr '0').toUInt64) rest
      else if isAlphaDigit c then getNumberDigits hex (n * 16 + 0xa + c.toUInt64 - (chr 'a').toUInt64) rest
      else .ok (n, c :: rest)
    else if isDigit c then getNumberDigits hex (n * 10 + c.toUInt64 - (chr '0').toUInt64) rest
    else .ok (n, c :: rest)

/-- `getNumber(state)`: `0x` selects base 16; in base 10 a `-` negates. -/
def getNumber (text : List UInt8) : Except LexError (UInt64 × List UInt8) :=
  match text with
  | [] => .error .overread
  | c :: rest =>
    let afterZero : Except LexError (Bool × List UInt8) :=
      if c = chr '0' then
        match rest with
        | [] => .error .overread
        | c :: rest' => if c = chr 'x' then .ok (true, rest') else .ok (false, rest)
      else .ok (false, text)
    match afterZero with
    | .error e => .error e
    | .ok (true, text) => getNumberDigits true 0 text
    | .ok (false, text) =>
      match text with
      | [] => .error .overread
      | c :: rest =>
        if c = chr '-' then (getNumberDigits false 0 rest).map fun (n, text) => (0 - n, text)
        else getNumberDigits false 0 text

/-! `getCFEncodedData` and `getHexData`. -/

/-- `__CFPLDataDecodeTable`: the value of each of the 128 characters, `-1` for
those that are not base-64 digits; `=` counts as `0`. -/
def cfplDataDecodeTable : List Int :=
  [-1, -1, -1, -1, -1, -1, -1, -1,
   -1, -1, -1, -1, -1, -1, -1, -1,
   -1, -1, -1, -1, -1, -1, -1, -1,
   -1, -1, -1, -1, -1, -1, -1, -1,
   -1, -1, -1, -1, -1, -1, -1, -1,
   -1, -1, -1, 62, -1, -1, -1, 63,
   52, 53, 54, 55, 56, 57, 58, 59,
   60, 61, -1, -1, -1, 0, -1, -1,
   -1, 0, 1, 2, 3, 4, 5, 6,
   7, 8, 9, 10, 11, 12, 13, 14,
   15, 16, 17, 18, 19, 20, 21, 22,
   23, 24, 25, -1, -1, -1, -1, -1,
   -1, 26, 27, 28, 29, 30, 31, 32,
   33, 34, 35, 36, 37, 38, 39, 40,
   41, 42, 43, 44, 45, 46, 47, 48,
   49, 50, 51, -1, -1, -1, -1, -1]

def cfplDataDecode (c : UInt8) : Int := cfplDataDecodeTable.getD c.toNat (-1)

/-- The loop of `getCFEncodedData` up to the `<` that ends the data: every
fourth base-64 digit completes a group of three bytes in `acc`, of which the
`=` characters just read cut the last one or two. A character that is NUL in
its low seven bits stops it with no data. -/
def getCFEncodedDataLoop (numeq cntr : Nat) (acc : UInt32) (out : List UInt8) :
    List UInt8 → Except LexError (List UInt8 × List UInt8)
  | [] => .error .overread
  | c :: rest =>
    if c = chr '<' then .ok (out, c :: rest)
    else
      let c' := c &&& 0x7f
      if c' = 0 then .ok ([], c :: rest)
      else
        let numeq := if c' = chr '=' then numeq + 1 else 0
        if cfplDataDecode c' < 0 then getCFEncodedDataLoop numeq cntr acc out rest
        else
          let cntr := cntr + 1
          let acc := (acc <<< 6) + (cfplDataDecode c').toNat.toUInt32
          let out :=
            if cntr % 4 = 0 then
              out ++ [((acc >>> 16) &&& 0xff).toUInt8] ++
                (if numeq < 2 then [((acc >>> 8) &&& 0xff).toUInt8] else []) ++
                (if numeq < 1 then [(acc &&& 0xff).toUInt8] else [])
            else out
          getCFEncodedDataLoop numeq cntr acc out rest

/-- `getCFEncodedData(state, &size)`: the decoded bytes (none for `NULL`) and
the text from where it stopped. -/
def getCFEncodedData (text : List UInt8) : Except LexError (List UInt8 × List UInt8) :=
  getCFEncodedDataLoop 0 0 0 [] text

/-- Where the loop of `getHexData` is: at its head, in the run of spaces it
skips, or after the high nibble `hi` of a byte. -/
inductive HexPhase where
  | top
  | spaces
  | low (hi : UInt8)

/-- The high nibble `getHexData` reads from `c`, if `c` is a digit. -/
def hexNibble (c : UInt8) : Option UInt8 :=
  if isDigit c then some (c - chr '0')
  else if isAlphaDigit c then some (0xa + (c - chr 'a'))
  else none

/-- The loop of `getHexData`, one character at a time: pairs of digits are
bytes, spaces and newlines between pairs are skipped, and anything else stops
it with no data where it is, as its `error` path does. -/
def getHexDataLoop (out : List UInt8) : HexPhase → List UInt8 → Except LexError (List UInt8 × List UInt8)
  | _, [] => .error .overread
  | .low hi, c :: rest =>
    match hexNibble c with
    | some lo => getHexDataLoop (out ++ [(hi <<< 4) ||| lo]) .top rest
    | none => .ok ([], c :: rest)
  | .top, c :: rest =>
    if c = chr '<' then .ok (out, c :: rest)
    else if isSpace c then getHexDataLoop out .spaces rest
    else if c = chr '\n' then getHexDataLoop out .top rest
    else
      match hexNibble c with
      | some hi => getHexDataLoop out (.low hi) rest
      | none => .ok ([], c :: rest)
  | .spaces, c :: rest =>
    if c ≠ 0 ∧ isSpace c then getHexDataLoop out .spaces rest
    else if c = chr '\n' then getHexDataLoop out .top rest
    else
      match hexNibble c with
      | some hi => getHexDataLoop out (.low hi) rest
      | none => .ok ([], c :: rest)

def getHexData (text : List UInt8) : Except LexError (List UInt8 × List UInt8) :=
  getHexDataLoop [] .top text

/-! `strtol` and `strtoul` of `IOStringFuncs.c`, on an attribute value: a
NUL-terminated copy, so its end reads as NUL. -/

def isSpaceC (c : UInt8) : Bool := c == chr ' ' || c == chr '\t' || c == chr '\n'

/-- The value of a digit or letter in the conversion loop. -/
def strtolDigit (c : UInt8) : Option Nat :=
  if chr '0' ≤ c ∧ c ≤ chr '9' then some (c - chr '0').toNat
  else if chr 'A' ≤ c ∧ c ≤ chr 'Z' then some ((c - chr 'A').toNat + 10)
  else if chr 'a' ≤ c ∧ c ≤ chr 'z' then some ((c - chr 'a').toNat + 10)
  else none

/-- The leading spaces, the sign, and with base `0` a `0x`, `0b` or `0` that
chooses the base: the sign, the base and the digits. -/
def strtolPrefix (base : Nat) (s : List UInt8) : Bool × Nat × List UInt8 :=
  let s := s.dropWhile isSpaceC
  let (neg, s) :=
    match s with
    | c :: rest => if c = chr '-' then (true, rest) else if c = chr '+' then (false, rest) else (false, s)
    | [] => (false, [])
  let zeroWith (letters : List UInt8) : Bool :=
    match s with
    | c :: x :: _ => c = chr '0' ∧ x ∈ letters
    | _ => false
  if (base = 0 ∨ base = 16) ∧ zeroWith (ascii "xX") then (neg, 16, s.drop 2)
  else if (base = 0 ∨ base = 2) ∧ zeroWith (ascii "bB") then (neg, 2, s.drop 2)
  else if base = 0 then (neg, if s.head? = some (chr '0') then 8 else 10, s)
  else (neg, base, s)

/-- The conversion loop: `any` becomes `-1` once the value passes
`cutoff * base + cutlim`. -/
def strtolLoop (base cutoff cutlim : Nat) (acc : Nat) (any : Int) : List UInt8 → Nat × Int
  | [] => (acc, any)
  | c :: rest =>
    match strtolDigit c with
    | none => (acc, any)
    | some d =>
      if d ≥ base then (acc, any)
      else if any < 0 ∨ acc > cutoff ∨ (acc = cutoff ∧ d > cutlim) then strtolLoop base cutoff cutlim acc (-1) rest
      else strtolLoop base cutoff cutlim (acc * base + d) 1 rest

/-- `strtol(nptr, NULL, base)`: a `long`, `LONG_MIN` or `LONG_MAX` past its range. -/
def strtol (s : List UInt8) (base : Nat) : Int :=
  let (neg, base, digits) := strtolPrefix base s
  let cutoff := if neg then 2 ^ 63 else 2 ^ 63 - 1
  let (acc, any) := strtolLoop base (cutoff / base) (cutoff % base) 0 0 digits
  if any < 0 then (if neg then -2 ^ 63 else 2 ^ 63 - 1)
  else if neg then -acc else acc

/-- `strtoul(nptr, NULL, base)`: an `unsigned long`, `ULONG_MAX` past its range. -/
def strtoul (s : List UInt8) (base : Nat) : Nat :=
  let (neg, base, digits) := strtolPrefix base s
  let (acc, any) := strtolLoop base ((2 ^ 64 - 1) / base) ((2 ^ 64 - 1) % base) 0 0 digits
  if any < 0 then 2 ^ 64 - 1
  else if neg then (2 ^ 64 - acc) % 2 ^ 64 else acc

/-! Each routine of `getTag` moves forward; so the `goto top` of `yylex`
after a tag it skips does terminate. -/

def GetTag.rest : GetTag → List UInt8
  | .ignore rest => rest
  | .tag _ _ _ rest => rest

theorem skipSpaces_length {text rest : List UInt8} (skipped : skipSpaces text = .ok rest) :
    rest.length ≤ text.length := by
  induction text with
  | nil => simp [skipSpaces] at skipped
  | cons c text ih =>
    unfold skipSpaces at skipped
    split_ifs at skipped
    · have shorter := ih skipped
      simp only [List.length_cons]
      omega
    · cases skipped
      rfl

theorem getTagName_length {name text name' rest : List UInt8} (named : getTagName name text = .ok (name', rest)) :
    rest.length ≤ text.length := by
  induction text generalizing name with
  | nil => simp [getTagName] at named
  | cons c text ih =>
    unfold getTagName at named
    split_ifs at named
    · have shorter := ih named
      simp only [List.length_cons]
      omega
    · cases named
      rfl

theorem getTagValue_length {value text value' rest : List UInt8} (read : getTagValue value text = .ok (value', rest)) :
    rest.length < text.length := by
  induction text generalizing value with
  | nil => simp [getTagValue] at read
  | cons c text ih =>
    unfold getTagValue at read
    split_ifs at read
    · cases read
      simp
    · cases text with
      | nil => simp at read
      | cons next after =>
        simp only at read
        split_ifs at read
        have shorter := ih read
        simp only [List.length_cons] at shorter ⊢
        omega

end Xnu.Serialize
