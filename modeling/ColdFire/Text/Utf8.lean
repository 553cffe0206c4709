namespace ColdFire.Text

def utf8Bytes (s : String) : List UInt8 := s.toUTF8.toList

/-- What the first byte of a sequence tells: how many bytes continue it, the bounds of the first of
these and the bits of the character so far. -/
structure Utf8Lead where
  more : Nat
  low : UInt8
  high : UInt8
  bits : Nat

def Utf8Lead.ofByte? (b : UInt8) : Option Utf8Lead :=
  let n := b.toNat
  if n < 0x80 then some ⟨0, 0x80, 0xBF, n⟩
  else if n < 0xC2 then none
  else if n < 0xE0 then some ⟨1, 0x80, 0xBF, n % 0x20⟩
  else if n = 0xE0 then some ⟨2, 0xA0, 0xBF, 0⟩
  else if n = 0xED then some ⟨2, 0x80, 0x9F, n % 0x10⟩
  else if n < 0xF0 then some ⟨2, 0x80, 0xBF, n % 0x10⟩
  else if n = 0xF0 then some ⟨3, 0x90, 0xBF, 0⟩
  else if n < 0xF4 then some ⟨3, 0x80, 0xBF, n % 8⟩
  else if n = 0xF4 then some ⟨3, 0x80, 0x8F, n % 8⟩
  else none

/-- Reads the bytes that continue a sequence: the character, or none if the sequence breaks off, and
what follows. -/
def continueUtf8 (more : Nat) (low high : UInt8) (bits : Nat) (bytes : List UInt8) :
    Option Char × List UInt8 :=
  match more, bytes with
  | 0, rest => (some (Char.ofNat bits), rest)
  | _ + 1, [] => (none, [])
  | more + 1, b :: rest =>
    -- Only the first byte behind the lead has bounds of its own.
    if low ≤ b ∧ b ≤ high then continueUtf8 more 0x80 0xBF (0x40 * bits + b.toNat % 0x40) rest
    else (none, b :: rest)

def firstUtf8 (b : UInt8) (rest : List UInt8) : Option Char × List UInt8 :=
  match Utf8Lead.ofByte? b with
  | none => (none, rest)
  | some lead => continueUtf8 lead.more lead.low lead.high lead.bits rest

theorem length_continueUtf8_le (more : Nat) (low high : UInt8) (bits : Nat)
    (bytes : List UInt8) : (continueUtf8 more low high bits bytes).2.length ≤ bytes.length := by
  induction bytes generalizing more low high bits with
  | nil => cases more <;> simp [continueUtf8]
  | cons b rest ih =>
    cases more with
    | zero => simp [continueUtf8]
    | succ more =>
      simp only [continueUtf8]
      split
      · exact Nat.le_succ_of_le (ih ..)
      · simp

theorem length_firstUtf8_le (b : UInt8) (rest : List UInt8) :
    (firstUtf8 b rest).2.length ≤ rest.length := by
  simp only [firstUtf8]
  split
  · exact Nat.le_refl _
  · exact length_continueUtf8_le ..

/-- The characters of bytes, with none for each longest piece that starts a character and breaks
off. -/
def ofUtf8 (bytes : List UInt8) : List (Option Char) :=
  match bytes with
  | [] => []
  | b :: rest =>
    (firstUtf8 b rest).1 :: ofUtf8 (firstUtf8 b rest).2
termination_by bytes.length
decreasing_by
  have := length_firstUtf8_le b rest
  simp only [List.length_cons]
  omega

/-- The text of bytes, with U+FFFD where they are not UTF-8. -/
def ofUtf8Lossy (bytes : List UInt8) : String :=
  String.ofList ((ofUtf8 bytes).map fun c => c.getD '\uFFFD')

def ofUtf8? (bytes : List UInt8) : Option String :=
  ((ofUtf8 bytes).mapM id).map String.ofList

end ColdFire.Text
