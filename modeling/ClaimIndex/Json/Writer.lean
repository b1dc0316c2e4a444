import ClaimIndex.Datum.Basic
import ClaimIndex.Json.Quoted
import ClaimIndex.Number.Shortest

namespace ClaimIndex.Json

def integerText (n : Int) : String :=
  (if n < 0 then "-" else "") ++ .ofList (Decimal.digits n.natAbs)

def scalar : Datum → String
  | .flag b => if b then "true" else "false"
  | .integer n => integerText n
  | .decimal x => (Shortest.pointed? x).getD "null"
  | .text s => Quoted.write s
  | _ => "null"

def brackets (items : List String) : String := "[" ++ ",".intercalate items ++ "]"

def braces (items : List String) : String := "\x7b" ++ ",".intercalate items ++ "\x7d"

mutual

def compact : Datum → String
  | .list items => brackets (compactItems items)
  | .table members => braces (compactMembers members)
  | d => scalar d

def compactItems : List Datum → List String
  | [] => []
  | d :: ds => compact d :: compactItems ds

def compactMembers : List (String × Datum) → List String
  | [] => []
  | (name, d) :: ms => (Quoted.write name ++ ":" ++ compact d) :: compactMembers ms

end

def block (margin : String) (start close : String) (items : List String) : String :=
  if items.isEmpty then start ++ close
  else
    let lines := items.map fun item => "\n" ++ margin ++ "  " ++ item
    start ++ ",".intercalate lines ++ "\n" ++ margin ++ close

mutual

def pretty (margin : String) : Datum → String
  | .list items => block margin "[" "]" (prettyItems (margin ++ "  ") items)
  | .table members => block margin "\x7b" "\x7d" (prettyMembers (margin ++ "  ") members)
  | d => scalar d

def prettyItems (margin : String) : List Datum → List String
  | [] => []
  | d :: ds => pretty margin d :: prettyItems margin ds

def prettyMembers (margin : String) : List (String × Datum) → List String
  | [] => []
  | (name, d) :: ms =>
    (Quoted.write name ++ ": " ++ pretty margin d) :: prettyMembers margin ms

end

end ClaimIndex.Json
