import ShortNames.Value

/-!
# Scalars of TOML

Readers take what they read off the front of a text and give the rest; `none` means that the text
does not conform. Numbers and dates are judged as whole words, as no word character can follow one.
-/

namespace ShortNames.Toml

abbrev Reader (α : Type) := Text → Option (α × Text)

def isSpace (c : Char) : Bool :=
  c == ' ' || c == '\t'

def skipSpace (t : Text) : Text :=
  t.dropWhile isSpace

def isPrintable (c : Char) : Bool :=
  c == '\t' || (0x20 ≤ c.toNat && c.toNat ≠ 0x7F)

def newline? : Text → Option Text
  | '\n' :: t => some t
  | '\r' :: '\n' :: t => some t
  | _ => none

def isHexDigit (c : Char) : Bool :=
  c.isDigit || ('a' ≤ c && c ≤ 'f') || ('A' ≤ c && c ≤ 'F')

def digitValue (c : Char) : Nat :=
  if c.isDigit then c.toNat - '0'.toNat
  else if c.isLower then c.toNat - 'a'.toNat + 10
  else c.toNat - 'A'.toNat + 10

def ofDigits (base : Nat) (digits : Text) : Nat :=
  digits.foldl (fun n c => n * base + digitValue c) 0

/-! ## Strings -/

def scalarEscape? (count : Nat) (t : Text) : Option (Char × Text) :=
  let digits := t.take count
  let n := ofDigits 16 digits
  if digits.length = count ∧ digits.all isHexDigit ∧ n.isValidChar then
    some (Char.ofNat n, t.drop count)
  else none

def escape? : Reader Char
  | 'b' :: t => some ('\x08', t)
  | 't' :: t => some ('\t', t)
  | 'n' :: t => some ('\n', t)
  | 'f' :: t => some ('\x0c', t)
  | 'r' :: t => some ('\r', t)
  | '"' :: t => some ('"', t)
  | '\\' :: t => some ('\\', t)
  | 'u' :: t => scalarEscape? 4 t
  | 'U' :: t => scalarEscape? 8 t
  | _ => none

/-- The rest of a one-line string whose opening quote was read. -/
def basicRest? (t : Text) : Option (Text × Text) :=
  match t with
  | [] => none
  | '"' :: t => some ([], t)
  | '\\' :: t =>
    match escape? t with
    | some (c, after) =>
      if after.length < t.length then
        (basicRest? after).map fun (s, rest) => (c :: s, rest)
      else none
    | none => none
  | c :: t =>
    if isPrintable c then (basicRest? t).map fun (s, rest) => (c :: s, rest) else none
termination_by t.length

def literalRest? : Reader Text
  | [] => none
  | '\'' :: t => some ([], t)
  | c :: t => if isPrintable c then (literalRest? t).map fun (s, rest) => (c :: s, rest) else none

/-- The end of a string over several lines: three quotes, with up to two more that belong to the
string. -/
def closing? (quote : Char) (t : Text) : Option (Text × Text) :=
  let quotes := (t.takeWhile (· = quote)).length
  if 3 ≤ quotes then
    let extra := min (quotes - 3) 2
    some (List.replicate extra quote, t.drop (extra + 3))
  else none

def skipBlankLines : Text → Text
  | '\r' :: '\n' :: t => skipBlankLines t
  | c :: t => if isSpace c || c == '\n' then skipBlankLines t else c :: t
  | [] => []

/-- The text after a backslash that ends a line: all blanks and line ends are skipped. -/
def continuation? (t : Text) : Option Text :=
  (newline? (skipSpace t)).map skipBlankLines

/-- The rest of a string over several lines whose opening quotes were read. -/
def longBasicRest? (t : Text) : Option (Text × Text) :=
  match closing? '"' t with
  | some done => some done
  | none =>
    match t with
    | [] => none
    | '\\' :: t =>
      match continuation? t with
      | some after =>
        if after.length < t.length then longBasicRest? after else none
      | none =>
        match escape? t with
        | some (c, after) =>
          if after.length < t.length then
            (longBasicRest? after).map fun (s, rest) => (c :: s, rest)
          else none
        | none => none
    | '\r' :: '\n' :: t => (longBasicRest? t).map fun (s, rest) => ('\n' :: s, rest)
    | c :: t =>
      if isPrintable c || c == '\n' then
        (longBasicRest? t).map fun (s, rest) => (c :: s, rest)
      else none
termination_by t.length

def longLiteralRest? (t : Text) : Option (Text × Text) :=
  match closing? '\'' t with
  | some done => some done
  | none =>
    match t with
    | [] => none
    | '\r' :: '\n' :: t => (longLiteralRest? t).map fun (s, rest) => ('\n' :: s, rest)
    | c :: t =>
      if isPrintable c || c == '\n' then
        (longLiteralRest? t).map fun (s, rest) => (c :: s, rest)
      else none
termination_by t.length

/-- A line end directly after the opening quotes does not belong to the string. -/
def withoutFirstNewline (t : Text) : Text :=
  (newline? t).getD t

def lineString? : Reader Text
  | '"' :: t => basicRest? t
  | '\'' :: t => literalRest? t
  | _ => none

def string? : Reader Text
  | '"' :: '"' :: '"' :: t => longBasicRest? (withoutFirstNewline t)
  | '\'' :: '\'' :: '\'' :: t => longLiteralRest? (withoutFirstNewline t)
  | t => lineString? t

/-! ## Numbers -/

def digits? (isDigit : Char → Bool) : Text → Option Text
  | [] => none
  | [c] => if isDigit c then some [c] else none
  | c :: '_' :: rest =>
    if isDigit c then (digits? isDigit rest).map (c :: ·) else none
  | c :: rest => if isDigit c then (digits? isDigit rest).map (c :: ·) else none

def signed : Text → Bool × Text
  | '-' :: t => (true, t)
  | '+' :: t => (false, t)
  | t => (false, t)

/-- The digits of a decimal number, with no zero in front. -/
def decimalDigits? (t : Text) : Option Text :=
  match digits? Char.isDigit t with
  | some ('0' :: _ :: _) => none
  | d => d

def magnitude? : Text → Option Nat
  | '0' :: 'x' :: t => (digits? isHexDigit t).map (ofDigits 16)
  | '0' :: 'o' :: t => (digits? (fun c => '0' ≤ c && c ≤ '7') t).map (ofDigits 8)
  | '0' :: 'b' :: t => (digits? (fun c => c == '0' || c == '1') t).map (ofDigits 2)
  | t => (decimalDigits? t).map (ofDigits 10)

/-- An integer of 64 bits. Only a decimal one may have a sign. -/
def integer? (t : Text) : Option Int :=
  let (negative, rest) := signed t
  let hasSign := rest.length < t.length
  let value := if hasSign then (decimalDigits? rest).map (ofDigits 10) else magnitude? rest
  value.bind fun n =>
    let i : Int := if negative then -n else n
    if -(Value.integerLimit : Int) ≤ i ∧ i < Value.integerLimit then some i else none

def exponent? : Text → Option Int
  | [] => some 0
  | c :: t =>
    if c = 'e' ∨ c = 'E' then
      let (negative, rest) := signed t
      (digits? Char.isDigit rest).map fun d => if negative then -ofDigits 10 d else ofDigits 10 d
    else none

/-- A number with a point, a power of ten, or both. -/
def decimal? (t : Text) : Option (Bool × Nat × Int) := do
  let (negative, rest) := signed t
  let isMantissa (c : Char) : Bool := c.isDigit || c == '_'
  let whole ← decimalDigits? (rest.takeWhile isMantissa)
  match rest.dropWhile isMantissa with
  | '.' :: after =>
    let places ← digits? Char.isDigit (after.takeWhile isMantissa)
    let e ← exponent? (after.dropWhile isMantissa)
    return (negative, ofDigits 10 (whole ++ places), e - places.length)
  | [] => none
  | after => return (negative, ofDigits 10 whole, ← exponent? after)

/-- A floating point number. One that is too great is refused; one that is too small is negative
infinity. -/
def float? (t : Text) : Option Binary64 :=
  let (negative, rest) := signed t
  if rest = ['i', 'n', 'f'] then some (.infinite negative)
  else if rest = ['n', 'a', 'n'] then some .nan
  else
    match decimal? t with
    | some (negative, digits, e) =>
      let x := Binary64.ofDecimal negative digits e
      if x = .infinite false then none else some x
    | none => none

/-! ## Dates and times -/

def fixed? (count : Nat) (t : Text) : Option (Nat × Text) :=
  let digits := t.take count
  if digits.length = count ∧ digits.all Char.isDigit then some (ofDigits 10 digits, t.drop count)
  else none

def daysOf (year month : Nat) : Nat :=
  if month = 2 then
    if year % 4 = 0 ∧ (year % 100 ≠ 0 ∨ year % 400 = 0) then 29 else 28
  else if month = 4 ∨ month = 6 ∨ month = 9 ∨ month = 11 then 30
  else 31

def afterDate? (t : Text) : Option Text := do
  let (year, t) ← fixed? 4 t
  let t ← ['-'].isPrefixOf? t
  let (month, t) ← fixed? 2 t
  let t ← ['-'].isPrefixOf? t
  let (day, t) ← fixed? 2 t
  if 1 ≤ month ∧ month ≤ 12 ∧ 1 ≤ day ∧ day ≤ daysOf year month then some t else none

def afterTime? (t : Text) : Option Text := do
  let (hour, t) ← fixed? 2 t
  let t ← [':'].isPrefixOf? t
  let (minute, t) ← fixed? 2 t
  let t ← [':'].isPrefixOf? t
  let (second, t) ← fixed? 2 t
  if hour ≤ 23 ∧ minute ≤ 59 ∧ second ≤ 60 then
    match t with
    | '.' :: c :: rest =>
      if c.isDigit then some (rest.dropWhile Char.isDigit) else none
    | _ => some t
  else none

def isOffset : Text → Bool
  | [] => true
  | c :: t =>
    if c = 'Z' ∨ c = 'z' then t.isEmpty
    else if c = '+' ∨ c = '-' then
      match fixed? 2 t with
      | some (hour, ':' :: t) =>
        match fixed? 2 t with
        | some (minute, []) => hour ≤ 23 && minute ≤ 59
        | _ => false
      | _ => false
    else false

def isClock (t : Text) : Bool :=
  (afterTime? t).any List.isEmpty

def isClockWithOffset (t : Text) : Bool :=
  (afterTime? t).any isOffset

def isMoment (t : Text) : Bool :=
  match afterDate? t with
  | some [] => true
  | some (c :: rest) => (c == 'T' || c == 't' || c == ' ') && isClockWithOffset rest
  | none => isClock t

def moment (t : Text) : Value :=
  .table [("$__toml_private_datetime", .string (String.ofList t))]

/-! ## Words -/

def isWordChar (c : Char) : Bool :=
  c.isAlphanum || c == '_' || c == '+' || c == '-' || c == '.' || c == ':'

/-- The longest word at the front. A date takes a time after one blank with it. -/
def word (t : Text) : Text × Text :=
  let first := t.takeWhile isWordChar
  let rest := t.dropWhile isWordChar
  match (afterDate? first).any List.isEmpty, rest with
  | true, ' ' :: c :: after =>
    if c.isDigit then
      (first ++ ' ' :: (c :: after).takeWhile isWordChar, (c :: after).dropWhile isWordChar)
    else (first, rest)
  | _, _ => (first, rest)

def ofWord? (w : Text) : Option Value :=
  if w = ['t', 'r', 'u', 'e'] then some (.bool true)
  else if w = ['f', 'a', 'l', 's', 'e'] then some (.bool false)
  else if isMoment w then some (moment w)
  else
    match integer? w with
    | some i => some (.integer i)
    | none => (float? w).map .float

def scalar? (t : Text) : Option (Value × Text) :=
  match t with
  | '"' :: _ | '\'' :: _ => (string? t).map fun (s, rest) => (.string (String.ofList s), rest)
  | _ =>
    let (w, rest) := word t
    (ofWord? w).map fun v => (v, rest)

end ShortNames.Toml
