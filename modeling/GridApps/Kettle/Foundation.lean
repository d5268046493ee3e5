import GridApps.Json.Scanner

/-! The part of Foundation the monitors rely on: `NSJSONSerialization` and the messages they
send to whatever it returns. -/
namespace GridApps.Kettle
open Json Numeral

/-- A reference to an object, `none` for `nil`. The objects are those JSON is mapped to. -/
abbrev Id := Option Value

inductive Selector where
  | objectForKey | isEqualToString | doubleValue
  deriving DecidableEq, Repr

/-- The result of a message, or the exception for a receiver that does not implement it. -/
abbrev Message (α : Type) := Except Selector α

/-- With `NSJSONReadingAllowFragments`. -/
def jsonObjectWithData (data : Text) : Id := loads standard data

def objectForKey (key : CodeUnits) : Id → Message Id
  | none => .ok none
  | some (.obj members) => .ok (members.lookup key)
  | some _ => .error .objectForKey

def isEqualToString (string : CodeUnits) : Id → Message Bool
  | none => .ok false
  | some (.str s) => .ok (decide (s = string))
  | some _ => .error .isEqualToString

def IsSpace (c : Char) : Prop := c = ' ' ∨ 9 ≤ c.toNat ∧ c.toNat ≤ 13

instance : DecidablePred IsSpace := fun _ => inferInstanceAs (Decidable (_ ∨ _))

/-- What follows a point need not be a digit here. -/
def scanPoint : Text → Digits × Text
  | [] => ([], [])
  | c :: t => if c = '.' then spanDigits t else ([], c :: t)

/-- The number after any white space; a single digit on either side of the point is enough. -/
def leadingNumber (t : Text) : Option Literal :=
  let sign := scanExpSign (t.dropWhile fun c => IsSpace c)
  let int := spanDigits sign.2
  let frac := scanPoint int.2
  if int.1 = [] ∧ frac.1 = [] then none
  else some ⟨sign.1, int.1, frac.1, (scanExp frac.2).1⟩

/-- A surrogate is no character; it ends a number as any letter does. -/
def charOfUnit (u : UInt16) : Char := Char.ofNat u.toNat

def stringDouble (s : CodeUnits) : Binary64 :=
  match leadingNumber (s.map charOfUnit) with
  | some l => l.float
  | none => ofRat 0

def doubleValue : Id → Message Binary64
  | none => .ok (ofRat 0)
  | some (.bool b) => .ok (ofRat (if b then 1 else 0))
  | some (.int n) => .ok (ofRat n)
  | some (.float x) => .ok x
  | some (.str s) => .ok (stringDouble s)
  | some .null => .error .doubleValue
  | some (.arr _) => .error .doubleValue
  | some (.obj _) => .error .doubleValue

example : (stringDouble (units [' ', '+', '5', '0', '.', '5', 'H', 'z'])).ge 50 = true := by
  decide +kernel

example : (stringDouble (units ['H', 'z'])).ge 50 = false := by decide +kernel

end GridApps.Kettle
