namespace ColdFire.Text

/-- The characters with the Unicode property `White_Space`. -/
def isBlank (c : Char) : Bool :=
  let n := c.toNat
  (0x09 ≤ n && n ≤ 0x0D) || n == 0x20 || n == 0x85 || n == 0xA0 || n == 0x1680 ||
    (0x2000 ≤ n && n ≤ 0x200A) || n == 0x2028 || n == 0x2029 || n == 0x202F ||
    n == 0x205F || n == 0x3000

def trimStart (cs : List Char) : List Char :=
  cs.dropWhile isBlank

def trimEnd (cs : List Char) : List Char :=
  (cs.reverse.dropWhile isBlank).reverse

def trim (cs : List Char) : List Char :=
  trimEnd (trimStart cs)

def cutAt? (p : Char → Bool) : List Char → Option (List Char × List Char)
  | [] => none
  | c :: cs =>
    if p c then some ([], cs)
    else (cutAt? p cs).map fun (before, after) => (c :: before, after)

def cutAtLast? (p : Char → Bool) (cs : List Char) : Option (List Char × List Char) :=
  (cutAt? p cs.reverse).map fun (after, before) => (before.reverse, after.reverse)

/-- The pieces between the characters that satisfy `p`; one more than there are of these. -/
def pieces (p : Char → Bool) : List Char → List (List Char)
  | [] => [[]]
  | c :: cs =>
    if p c then [] :: pieces p cs
    else match pieces p cs with
      | [] => [[c]]
      | piece :: rest => (c :: piece) :: rest

def afterMark? (mark : List Char) (cs : List Char) : Option (List Char) :=
  if mark.isPrefixOf cs then some (cs.drop mark.length) else none

def beforeMark? (mark : List Char) (cs : List Char) : Option (List Char) :=
  if mark.isSuffixOf cs then some (cs.take (cs.length - mark.length)) else none

/-- A line that was ended by a newline, without the carriage return in front of the newline. -/
def withoutReturn (line : List Char) : List Char :=
  (beforeMark? ['\r'] line).getD line

/-- The lines of a text. A newline ends a line, and a carriage return just before it goes with it;
text after the last newline is a line if there is any. -/
def lines (cs : List Char) : List (List Char) :=
  let parts := pieces (· == '\n') cs
  let last := parts.getLast?.getD []
  parts.dropLast.map withoutReturn ++ (if last.isEmpty then [] else [last])

def lower (cs : List Char) : List Char :=
  cs.map Char.toLower

end ColdFire.Text
