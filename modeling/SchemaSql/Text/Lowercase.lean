import SchemaSql.Text.CaseTable

/-!
The full lowercase form of a text. Every letter takes its own lowercase form; a capital sigma
becomes a final sigma at the end of a word, and a capital I with a dot becomes two characters.
Two object names are the same when their lowercase forms are.
-/

set_option autoImplicit false
set_option relaxedAutoImplicit false

namespace SchemaSql.Text

def inRanges (ranges : List (Nat × Nat)) (c : Char) : Bool :=
  ranges.any fun r ↦ r.1 ≤ c.toNat && c.toNat ≤ r.2

/-- The lowercase form of a letter that has one of a single character. -/
def lowerChar (c : Char) : Char :=
  let n := c.toNat
  if n < 128 then c.toLower
  else
    match lowercaseRuns.find? fun r ↦ r.1 ≤ n && n ≤ r.2.1 && (r.2.1 - n) % r.2.2.1 == 0 with
    | some r => Char.ofNat (r.2.2.2 - (r.2.1 - n))
    | none => c

/-- Whether the first character that is not skipped inside words is a letter with case. -/
def meetsCased (cs : List Char) : Bool :=
  match cs.dropWhile (inRanges ignorableRanges) with
  | c :: _ => inRanges casedRanges c
  | [] => false

/-- Lowers a text given the characters before it, nearest first. -/
def lowerAfter (before : List Char) : List Char → List Char
  | [] => []
  | c :: cs =>
    let lowered :=
      if c.toNat == 0x130 then ['i', Char.ofNat 0x307]
      else if c.toNat == 0x3A3 then
        [if meetsCased before && !meetsCased cs then Char.ofNat 0x3C2 else Char.ofNat 0x3C3]
      else [lowerChar c]
    lowered ++ lowerAfter (c :: before) cs

def lowerChars (cs : List Char) : List Char :=
  lowerAfter [] cs

def lowercase (s : String) : String :=
  String.ofList (lowerChars s.toList)

end SchemaSql.Text
