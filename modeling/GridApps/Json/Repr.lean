import GridApps.Json.Dumps

/-! Python 2's `repr` and `str` of decoded JSON values. -/
namespace GridApps.Json

open GridApps.Numeral

/-- The module that decoded a value: `simplejson` gives byte strings for ASCII text, the
standard `json` gives unicode strings only. -/
inductive Library where
  | simplejson
  | json
  deriving DecidableEq

def Library.isUnicode (lib : Library) (k : CodeUnits) : Bool :=
  match lib with
  | .simplejson => k.any fun u => decide (0x80 ≤ u.toNat)
  | .json => true

/-- Double quotes around a string with single quotes only, single quotes otherwise. -/
def quoteFor (k : CodeUnits) : Char := if 0x27 ∈ k ∧ 0x22 ∉ k then '"' else '\''

def hex2 (u : UInt16) : Text := [hexChar (u.toNat / 0x10), hexChar (u.toNat % 0x10)]

def reprUnit (quote : Char) (u : UInt16) : Text :=
  if u.toNat = quote.toNat ∨ u = 0x5C then ['\\', Char.ofNat u.toNat]
  else if 0x100 ≤ u.toNat then '\\' :: 'u' :: hex4 u
  else if u = 0x09 then ['\\', 't']
  else if u = 0x0A then ['\\', 'n']
  else if u = 0x0D then ['\\', 'r']
  else if u.toNat < 0x20 ∨ 0x7F ≤ u.toNat then '\\' :: 'x' :: hex2 u
  else [Char.ofNat u.toNat]

def IsHighSurrogate (u : UInt16) : Prop := 0xD800 ≤ u.toNat ∧ u.toNat < 0xDC00

def IsLowSurrogate (u : UInt16) : Prop := 0xDC00 ≤ u.toNat ∧ u.toNat < 0xE000

instance (u : UInt16) : Decidable (IsHighSurrogate u) := by
  unfold IsHighSurrogate
  infer_instance

instance (u : UInt16) : Decidable (IsLowSurrogate u) := by
  unfold IsLowSurrogate
  infer_instance

/-- A surrogate pair as one character of eight hexadecimal digits. -/
def reprPair (high low : UInt16) : Text :=
  let n := 0x10000 + (high.toNat - 0xD800) * 0x400 + (low.toNat - 0xDC00)
  '\\' :: 'U' :: (hex4 (n / 0x10000).toUInt16 ++ hex4 (n % 0x10000).toUInt16)

def reprUnits (quote : Char) : CodeUnits → Text
  | [] => []
  | [u] => reprUnit quote u
  | u :: v :: k =>
    if IsHighSurrogate u ∧ IsLowSurrogate v then reprPair u v ++ reprUnits quote k
    else reprUnit quote u ++ reprUnits quote (v :: k)

def reprString (lib : Library) (k : CodeUnits) : Text :=
  (if lib.isUnicode k then ['u'] else []) ++
    quoteFor k :: (reprUnits (quoteFor k) k ++ [quoteFor k])

def reprFloat : Binary64 → Text
  | .finite x => x.literal.text
  | .infinity neg => (if neg then ['-'] else []) ++ ['i', 'n', 'f']
  | .nan => ['n', 'a', 'n']

/-- An integer outside the machine's `int` is a `long` and has a suffix. -/
def reprInt (maxint : ℕ) (n : ℤ) : Text :=
  intText n ++ if -maxint - 1 ≤ n ∧ n ≤ maxint then [] else ['L']

def reprScalar (lib : Library) (maxint : ℕ) : Scalar → Text
  | .null => ['N', 'o', 'n', 'e']
  | .bool b => if b then ['T', 'r', 'u', 'e'] else ['F', 'a', 'l', 's', 'e']
  | .int n => reprInt maxint n
  | .float x => reprFloat x
  | .str k => reprString lib k

def repr (lib : Library) (maxint : ℕ) (v : Value) : Text := v.print (reprScalar lib maxint)

/-- The decimal with twelve digits, as the format `%.12g` rounds it. -/
def twelveDigits (q : ℚ) : ℕ × ℤ :=
  let s := 12 - decimalPoint q
  Finite64.stripZeros 12 ((roundEven (q * 10 ^ s)).toNat, s)

/-- The exponent comes in earlier than in `repr`. -/
def strLiteral (x : Finite64) : Literal :=
  if x.mant = 0 then ⟨x.neg, [zeroDigit], [zeroDigit], none⟩
  else
    let p := twelveDigits x.magnitude
    let ds := digitsOf p.1
    let point := ds.length - p.2
    if point ≤ 11 then Literal.layout x.neg ds point
    else ⟨x.neg, ds.take 1, ds.drop 1, some (point - 1)⟩

/-- `str`; a string of characters outside ASCII is a unicode string, which raises. -/
def pyStr (lib : Library) (maxint : ℕ) : Value → Option Text
  | .str k =>
    if k.all fun u => decide (u.toNat < 0x80) then some (k.map fun u => Char.ofNat u.toNat)
    else none
  | .int n => some (intText n)
  | .float (.finite x) => some (strLiteral x).text
  | v => some (repr lib maxint v)

end GridApps.Json
