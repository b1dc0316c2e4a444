import ClaimIndex.Datum.Basic
import ClaimIndex.Json.Writer

namespace ClaimIndex.Toml

def longestRun (c : Char) (s : List Char) : Nat :=
  let step := fun (longest, run) d =>
    if d = c then (max longest (run + 1), run + 1) else (longest, 0)
  (s.foldl step (0, 0)).1

def needsEscape (c : Char) : Bool := (c.toNat < 0x20 && c ≠ '\t' && c ≠ '\n') || c.toNat = 0x7F

def escape (lines : Bool) (c : Char) : List Char :=
  match c with
  | '\x08' => ['\\', 'b']
  | '\t' => ['\\', 't']
  | '\n' => if lines then ['\n'] else ['\\', 'n']
  | '\x0c' => ['\\', 'f']
  | '\r' => ['\\', 'r']
  | '\\' => ['\\', '\\']
  | c =>
    if needsEscape c then
      let digits := (Nat.toDigits 16 c.toNat).map Char.toUpper
      ['\\', 'u'] ++ List.replicate (4 - digits.length) '0' ++ digits
    else [c]

def escaped (lines : Bool) (quotes : Nat) : (run : Nat) → List Char → List Char
  | _, [] => []
  | run, '"' :: cs =>
    if run < quotes then '"' :: escaped lines quotes (run + 1) cs
    else '\\' :: '"' :: escaped lines quotes 0 cs
  | _, c :: cs => escape lines c ++ escaped lines quotes 0 cs

def tripled (c : Char) (cs : List Char) : List Char := c :: c :: c :: cs ++ [c, c, c]

def onLines (cs : List Char) : List Char := if cs.contains '\n' then '\n' :: cs else cs

def quoted (cs : List Char) : List Char :=
  let hasControls := cs.any needsEscape
  let hasLines := cs.contains '\n'
  let hasBackslashes := cs.contains '\\'
  if !hasControls && !hasBackslashes && !cs.contains '"' && !hasLines then
    '"' :: escaped false 0 0 cs ++ ['"']
  else if !hasControls && !cs.contains '\'' && !hasLines then '\'' :: cs ++ ['\'']
  else if !hasControls && !hasBackslashes && longestRun '"' cs ≤ 2 then
    tripled '"' (onLines (escaped true 2 0 cs))
  else if !hasControls && longestRun '\'' cs ≤ 2 then tripled '\'' (onLines cs)
  else if hasLines then tripled '"' (onLines (escaped true 2 0 cs))
  else '"' :: escaped false 0 0 cs ++ ['"']

def scalarText : Datum → String
  | .text s => .ofList (quoted s.toList)
  | d => Json.scalar d

def valueText : Datum → String
  | .list [] => "[]"
  | .list [d] => "[" ++ scalarText d ++ "]"
  | .list ds => "[\n" ++ String.join (ds.map fun d => "    " ++ scalarText d ++ ",\n") ++ "]"
  | d => scalarText d

def section? : String × Datum → Option String
  | (name, .table members) =>
    let lines := members.map fun (key, d) => key ++ " = " ++ valueText d ++ "\n"
    some ("[" ++ name ++ "]\n" ++ String.join lines)
  | _ => none

def write (sections : List (String × Datum)) : String :=
  "\n".intercalate (sections.filterMap section?)

end ClaimIndex.Toml
