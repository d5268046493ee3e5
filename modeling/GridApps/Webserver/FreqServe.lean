import GridApps.Json.Dumps

/-! The advice server `freqServe.py`. -/
namespace GridApps.Webserver
open Json Numeral

def freqKey : CodeUnits := units ['f', 'r', 'e', 'q']

def instructionKey : CodeUnits := units ['i', 'n', 's', 't', 'r', 'u', 'c', 't', 'i', 'o', 'n']

def yes : CodeUnits := units ['y', 'e', 's']

def no : CodeUnits := units ['n', 'o']

/-- `replace("\'", "\"")` -/
def replaceQuotes (t : Text) : Text := t.map fun c => if c = '\'' then '"' else c

/-- The report as it is read out of the sorted set. -/
def readReport (member : Text) : Option Value := loads python (replaceQuotes member)

/-- Python 2's `freq < 50`: `None` comes before every number, and any other type after it. -/
def below50 : Value → Bool
  | .null => true
  | .bool _ => true
  | .int n => decide (n < 50)
  | .float x => x.lt 50
  | .str _ => false
  | .arr _ => false
  | .obj _ => false

namespace JsonRequest

/-- The body of the response, for the newest member of the set. Anything else than an object
with a `freq` raises. -/
def GET (member : Text) : Option Text :=
  (readReport member).bind fun outJson =>
    match outJson with
    | .obj members =>
      (members.lookup freqKey).map fun freq =>
        let instruction := if below50 freq then no else yes
        dumps (.obj (Members.setItem instructionKey (.str instruction) members))
    | _ => none

end JsonRequest
end GridApps.Webserver
