import ColdFire.ObjectFile.Record
import ColdFire.Proofs.Instruction.Demand
import ColdFire.Proofs.Memory.Bytes
import ColdFire.Proofs.Text.Cut

namespace ColdFire

namespace Record

section Spelling

def hexDigits : List Char :=
  ['0', '1', '2', '3', '4', '5', '6', '7', '8', '9', 'A', 'B', 'C', 'D', 'E', 'F', 'a', 'b', 'c',
    'd', 'e', 'f']

def hexValue (c : Char) : Nat := (Text.digitValue? 16 c).getD 0

def byteOf (high low : Char) : UInt8 := UInt8.ofNat (16 * hexValue high + hexValue low)

/-- A text spells bytes: a digit of `leading` and a hexadecimal digit for each. -/
inductive Spells (leading : List Char) : List Char → List UInt8 → Prop where
  | nil : Spells leading [] []
  | cons {high low : Char} {digits : List Char} {bs : List UInt8} (hhigh : high ∈ leading)
      (hlow : low ∈ hexDigits) (hrest : Spells leading digits bs) :
      Spells leading (high :: low :: digits) (byteOf high low :: bs)

variable {leading digits more : List Char} {bs : List UInt8} {a b c d : Char} {n i : Nat}

theorem digitValue?_of_mem (h : c ∈ hexDigits) :
    Text.digitValue? 16 c = some (hexValue c) ∧ hexValue c < 16 := by
  have hall : ∀ c ∈ hexDigits, Text.digitValue? 16 c = some (hexValue c) ∧ hexValue c < 16 :=
    List.all_iff_forall_prop.mp (by decide)
  exact hall c h

theorem mem_hexDigits (h : Text.digitValue? 16 c = some n) : c ∈ hexDigits := by
  have hall : ∀ k < 123, (Text.digitValue? 16 (Char.ofNat k)).isSome = true →
      Char.ofNat k ∈ hexDigits := by decide +kernel
  have hsome : (Text.digitValue? 16 c).isSome = true := by rw [h]; rfl
  have hlt : c.toNat < 123 := by
    unfold Text.digitValue? at h
    dsimp only at h
    split at h
    · rename_i hc
      exact Nat.lt_of_le_of_lt (show c.toNat ≤ 57 from hc.2) (by decide)
    split at h
    · rename_i hc
      exact Nat.lt_succ_of_le (show c.toNat ≤ 122 from hc.2)
    split at h
    · rename_i hc
      exact Nat.lt_of_le_of_lt (show c.toNat ≤ 90 from hc.2) (by decide)
    · cases h
  rw [← Char.ofNat_toNat c] at hsome ⊢
  exact hall c.toNat hlt hsome

theorem digitValue?_eq_some :
    Text.digitValue? 16 c = some n ↔ c ∈ hexDigits ∧ n = hexValue c := by
  constructor
  · intro h
    have hmem := mem_hexDigits h
    exact ⟨hmem, Option.some.inj (h.symm.trans (digitValue?_of_mem hmem).1)⟩
  · rintro ⟨hmem, rfl⟩
    exact (digitValue?_of_mem hmem).1

theorem digitsFrom?_cons {acc : Nat} : Text.digitsFrom? 16 acc (c :: more) = some n ↔
    c ∈ hexDigits ∧ Text.digitsFrom? 16 (acc * 16 + hexValue c) more = some n := by
  rw [Text.digitsFrom?, Option.bind_eq_some_iff]
  constructor
  · rintro ⟨v, hv, hmore⟩
    obtain ⟨hmem, rfl⟩ := digitValue?_eq_some.1 hv
    exact ⟨hmem, hmore⟩
  · rintro ⟨hmem, hmore⟩
    exact ⟨hexValue c, digitValue?_eq_some.2 ⟨hmem, rfl⟩, hmore⟩

theorem digits?_single : Text.digits? 16 [b] = some n ↔ b ∈ hexDigits ∧ n = hexValue b := by
  rw [Text.digits?, if_neg (by simp), digitsFrom?_cons, Text.digitsFrom?, Option.some.injEq,
    Nat.zero_mul, Nat.zero_add, eq_comm (a := n)]

theorem digits?_pair : Text.digits? 16 [a, b] = some n ↔
    a ∈ hexDigits ∧ b ∈ hexDigits ∧ n = 16 * hexValue a + hexValue b := by
  rw [Text.digits?, if_neg (by simp), digitsFrom?_cons, digitsFrom?_cons, Text.digitsFrom?,
    Option.some.injEq, Nat.zero_mul, Nat.zero_add, Nat.mul_comm, eq_comm (a := n)]

theorem byteOf_lt (ha : a ∈ '+' :: hexDigits) (hb : b ∈ hexDigits) :
    16 * hexValue a + hexValue b < 256 := by
  have hall : ∀ c ∈ '+' :: hexDigits, hexValue c < 16 := List.all_iff_forall_prop.mp (by decide)
  have hhigh := hall a ha
  have hlow := (digitValue?_of_mem hb).2
  omega

theorem readNat?_plus {bound : Nat} {cs : List Char} :
    Text.readNat? 16 bound ('+' :: cs) = (Text.digits? 16 cs).filter (· < bound) := rfl

theorem readNat?_of_ne_plus {bound : Nat} {cs : List Char} (ha : a ≠ '+') :
    Text.readNat? 16 bound (a :: cs) = (Text.digits? 16 (a :: cs)).filter (· < bound) := by
  unfold Text.readNat?
  split
  · rename_i heq
    exact absurd (List.cons.inj heq).1 ha
  · rfl

/-- Two characters are read as a byte if the second is a digit and the first is one too, or a plus
sign, which counts as 0. -/
theorem readNat?_pair : Text.readNat? 16 256 [a, b] = some n ↔
    a ∈ '+' :: hexDigits ∧ b ∈ hexDigits ∧ n = 16 * hexValue a + hexValue b := by
  by_cases ha : a = '+'
  · subst ha
    have hfirst : '+' ∈ '+' :: hexDigits := List.mem_cons_self
    rw [readNat?_plus, Option.filter_eq_some_iff, digits?_single, decide_eq_true_eq,
      show hexValue '+' = 0 from rfl, Nat.mul_zero, Nat.zero_add]
    constructor
    · rintro ⟨⟨hb, hn⟩, -⟩
      exact ⟨hfirst, hb, hn⟩
    · rintro ⟨-, hb, hn⟩
      have hlt := (digitValue?_of_mem hb).2
      exact ⟨⟨hb, hn⟩, by omega⟩
  · rw [readNat?_of_ne_plus ha, Option.filter_eq_some_iff, digits?_pair, decide_eq_true_eq,
      List.mem_cons, or_iff_right ha]
    constructor
    · rintro ⟨h, -⟩
      exact h
    · rintro ⟨hfirst, hb, hn⟩
      exact ⟨⟨hfirst, hb, hn⟩, hn ▸ byteOf_lt (List.mem_cons_of_mem _ hfirst) hb⟩

namespace Spells

theorem length (h : Spells leading digits bs) : digits.length = 2 * bs.length := by
  induction h with
  | nil => rfl
  | cons hhigh hlow hrest ih =>
    rw [List.length_cons, List.length_cons, ih, List.length_cons]
    omega

theorem subset (h : Spells leading digits bs) : digits ⊆ leading ++ hexDigits := by
  induction h with
  | nil => exact List.nil_subset _
  | cons hhigh hlow hrest ih =>
    exact List.cons_subset.mpr ⟨List.mem_append_left _ hhigh,
      List.cons_subset.mpr ⟨List.mem_append_right _ hlow, ih⟩⟩

theorem of_leading {fewer : List Char} (h : Spells leading digits bs)
    (hfewer : ∀ c ∈ digits, c ∈ leading → c ∈ fewer) : Spells fewer digits bs := by
  induction h with
  | nil => exact .nil
  | cons hhigh hlow hrest ih =>
    exact .cons (hfewer _ List.mem_cons_self hhigh) hlow
      (ih fun c hc => hfewer c (List.mem_cons_of_mem _ (List.mem_cons_of_mem _ hc)))

/-- With the digits of one byte replaced, a text spells the bytes with that one replaced. -/
theorem set (h : Spells leading digits bs) (hi : i < bs.length) (hc : c ∈ leading)
    (hd : d ∈ hexDigits) :
    Spells leading ((digits.set (2 * i) c).set (2 * i + 1) d) (bs.set i (byteOf c d)) := by
  induction h generalizing i with
  | nil => cases hi
  | cons hhigh hlow hrest ih =>
    cases i with
    | zero => exact .cons hc hd hrest
    | succ k => exact .cons hhigh hlow (ih (Nat.lt_of_succ_lt_succ hi))

end Spells

theorem pairs_eq_ok (heven : digits.length % 2 = 0) :
    pairs digits = .ok bs ↔ Spells ('+' :: hexDigits) digits bs := by
  constructor
  · intro h
    fun_induction pairs digits generalizing bs with
    | case1 a b rest n hn ih =>
      obtain ⟨bs', hrest, rfl⟩ := except_map_eq_ok.1 h
      obtain ⟨ha, hb, rfl⟩ := readNat?_pair.1 hn
      rw [List.length_cons, List.length_cons] at heven
      exact .cons ha hb (ih (by omega) hrest)
    | case2 a b rest hn => cases h
    | case3 digits hshort =>
      cases h
      match digits, hshort, heven with
      | [], _, _ => exact .nil
      | [a], _, heven => cases heven
      | a :: b :: rest, hshort, _ => exact absurd rfl (hshort a b rest)
  · intro h
    clear heven
    induction h with
    | nil => rfl
    | cons hhigh hlow hrest ih =>
      rw [pairs, readNat?_pair.2 ⟨hhigh, hlow, rfl⟩]
      dsimp only
      rw [ih]
      rfl

theorem bytes_eq_ok : bytes digits = .ok bs ↔ Spells ('+' :: hexDigits) digits bs := by
  constructor
  · intro h
    unfold bytes at h
    split at h
    · cases h
    split at h
    · cases h
    · rename_i hodd
      exact (pairs_eq_ok (by omega)).1 h
  · intro h
    have hlow : ∀ c ∈ '+' :: hexDigits ++ hexDigits, decide (0x80 ≤ c.toNat) = false :=
      List.all_iff_forall_prop.mp (by decide)
    have hascii : (digits.any fun c => 0x80 ≤ c.toNat) = false :=
      List.any_eq_false.2 fun c hc => Bool.eq_false_iff.1 (hlow c (h.subset hc))
    have hlength := h.length
    rw [bytes, hascii, if_neg Bool.false_ne_true, if_neg (by omega), (pairs_eq_ok (by omega)).2 h]

end Spelling

def ink : List Char :=
  ['0', '1', '2', '3', '4', '5', '6', '7', '8', '9', 'A', 'B', 'C', 'D', 'E', 'F']

def digits (bs : List UInt8) : List Char := bs.flatMap fun b => Text.upperHexDigits 2 b.toNat

theorem upperHexDigits_two : ∀ n < 256, Text.upperHexDigits 2 n =
    [(n / 16).digitChar.toUpper, (n % 16).digitChar.toUpper] := by decide +kernel

theorem byteOf_two : ∀ n < 256,
    byteOf (n / 16).digitChar.toUpper (n % 16).digitChar.toUpper = UInt8.ofNat n := by
  decide +kernel

theorem toUpper_digitChar_mem_ink : ∀ n < 16, n.digitChar.toUpper ∈ ink := by decide

theorem digits_cons (b : UInt8) (bs : List UInt8) : digits (b :: bs) =
    (b.toNat / 16).digitChar.toUpper :: (b.toNat % 16).digitChar.toUpper :: digits bs := by
  rw [digits, List.flatMap_cons, upperHexDigits_two _ b.toNat_lt]
  rfl

theorem digits_subset_ink (bs : List UInt8) : digits bs ⊆ ink := by
  induction bs with
  | nil => exact List.nil_subset _
  | cons b rest ih =>
    have hb := b.toNat_lt
    rw [digits_cons, List.cons_subset, List.cons_subset]
    exact ⟨toUpper_digitChar_mem_ink _ (by omega), toUpper_digitChar_mem_ink _ (by omega), ih⟩

theorem spells_digits (bs : List UInt8) : Spells ('+' :: hexDigits) (digits bs) bs := by
  have hink : ink ⊆ hexDigits := by decide
  induction bs with
  | nil => exact .nil
  | cons b rest ih =>
    have hb := b.toNat_lt
    have hbyte : byteOf (b.toNat / 16).digitChar.toUpper (b.toNat % 16).digitChar.toUpper = b := by
      rw [byteOf_two _ hb, UInt8.ofNat_toNat]
    have hhigh := hink (toUpper_digitChar_mem_ink (b.toNat / 16) (by omega))
    have hlow := hink (toUpper_digitChar_mem_ink (b.toNat % 16) (by omega))
    have hcons := ih.cons (List.mem_cons_of_mem '+' hhigh) hlow
    rwa [hbyte, ← digits_cons] at hcons

theorem bytes_digits (bs : List UInt8) : bytes (digits bs) = .ok bs :=
  bytes_eq_ok.2 (spells_digits bs)

theorem sum_append_singleton (bs : List UInt8) (b : UInt8) : sum (bs ++ [b]) = sum bs + b :=
  List.foldl_append

theorem toNat_number_drop_bytes (v : UInt32) (width : Nat) (hlow : 2 ≤ width) (hhigh : width ≤ 4) :
    (number ((Bus.bytes .long v).drop (4 - width))).toNat = v.toNat % 256 ^ width := by
  have h3 : (v >>> 24).toUInt8.toNat = _ := Bus.toNat_shift_byte v 3 (by decide)
  have h2 : (v >>> 16).toUInt8.toNat = _ := Bus.toNat_shift_byte v 2 (by decide)
  have h1 : (v >>> 8).toUInt8.toNat = _ := Bus.toNat_shift_byte v 1 (by decide)
  have h0 := UInt32.toNat_toUInt8 v
  obtain rfl | rfl | rfl : width = 2 ∨ width = 3 ∨ width = 4 := by omega
  · refine (Bus.toNat_value_two _ _).trans ?_
    rw [h1, h0]
    omega
  · refine (Bus.toNat_value_three _ _ _).trans ?_
    rw [h2, h1, h0]
    omega
  · refine (Bus.toNat_value_four _ _ _ _).trans ?_
    rw [h3, h2, h1, h0]
    omega

theorem number_drop_bytes {v : UInt32} (width : Nat) (hlow : 2 ≤ width) (hhigh : width ≤ 4)
    (hv : v.toNat < 256 ^ width) : number ((Bus.bytes .long v).drop (4 - width)) = v := by
  rw [← UInt32.toNat_inj, toNat_number_drop_bytes v width hlow hhigh, Nat.mod_eq_of_lt hv]

end Record

namespace RecordLine

variable {σ : Type} {read : σ → RecordLine → Except LoadError σ} {p q r : σ}
  {cs ds line : List Char} {lines : List (List Char)} {k : Nat} {l : RecordLine}

/-- The lines that hold more than blanks, if the first is counted as line `k`. -/
def ofLines (lines : List (List Char)) (k : Nat) : List RecordLine :=
  (lines.zipIdx k).filterMap fun (line, number) =>
    let body := Text.trim line
    if body.isEmpty then none else some ⟨number, line, body⟩

theorem ofText_eq_ofLines : ofText cs = ofLines (Text.lines cs) 1 := rfl

theorem ofLines_cons_append :
    ofLines (line :: lines) k = ofLines [line] k ++ ofLines lines (k + 1) := by
  rw [ofLines, List.zipIdx_cons, ← List.singleton_append, List.filterMap_append]
  rfl

theorem ofLines_singleton (hne : Text.trim line ≠ []) :
    ofLines [line] k = [⟨k, line, Text.trim line⟩] := by
  simp [ofLines, hne]

theorem mem_ofLines_singleton :
    l ∈ ofLines [line] k ↔ l = ⟨k, line, Text.trim line⟩ ∧ Text.trim line ≠ [] := by
  by_cases hne : Text.trim line = []
  · simp [ofLines, hne]
  · rw [ofLines_singleton hne, List.mem_singleton, and_iff_left hne]

theorem ofLines_cons (hne : line ≠ []) (hink : ∀ c ∈ line, Text.isBlank c = false)
    (lines : List (List Char)) :
    ofLines (line :: lines) k = ⟨k, line, line⟩ :: ofLines lines (k + 1) := by
  rw [ofLines_cons_append, ofLines_singleton (by rwa [Text.trim_of_all hink]),
    Text.trim_of_all hink, List.singleton_append]

/-- Reading the lines `cs`, wherever they stand, takes a reader from `p` to `q`. -/
def Reads (read : σ → RecordLine → Except LoadError σ) (p : σ) (cs : List Char) (q : σ) : Prop :=
  ∀ k rest, ∃ k', (ofLines (Text.lines (cs ++ rest)) k).foldlM read p =
    (ofLines (Text.lines rest) k').foldlM read q

theorem Reads.nil : Reads read p [] p := fun k _ => ⟨k, rfl⟩

theorem Reads.append (hcs : Reads read p cs q) (hds : Reads read q ds r) :
    Reads read p (cs ++ ds) r := by
  intro k rest
  obtain ⟨k', hfirst⟩ := hcs k (ds ++ rest)
  obtain ⟨k'', hsecond⟩ := hds k' rest
  exact ⟨k'', by rw [List.append_assoc, hfirst, hsecond]⟩

theorem Reads.foldlM_ofText (h : Reads read p cs q) : (ofText cs).foldlM read p = .ok q := by
  obtain ⟨k', hk⟩ := h 1 []
  rw [List.append_nil] at hk
  rw [ofText_eq_ofLines, hk]
  rfl

variable {mark : List Char} {bs : List UInt8}

theorem ofLines_text (hmark : ∀ c ∈ mark, Text.isBlank c = false) (hne : mark ≠ []) :
    ofLines (Text.lines (Record.text mark bs ++ cs)) k =
      ⟨k, mark ++ Record.digits bs, mark ++ Record.digits bs⟩ ::
        ofLines (Text.lines cs) (k + 1) := by
  have hink : Record.ink.any Text.isBlank = false := by decide
  have hblank : ∀ c ∈ mark ++ Record.digits bs, Text.isBlank c = false := by
    intro c hc
    rcases List.mem_append.mp hc with hc | hc
    · exact hmark c hc
    · exact Bool.eq_false_iff.mpr (List.any_eq_false.mp hink c (Record.digits_subset_ink bs hc))
  have habsent (c : Char) (hc : Text.isBlank c = true) : c ∉ mark ++ Record.digits bs := by
    intro hmem
    rw [hblank c hmem] at hc
    cases hc
  have hlines : Text.lines (Record.text mark bs ++ cs) =
      (mark ++ Record.digits bs) :: Text.lines cs := by
    rw [← Text.lines_cons (habsent '\n' rfl) (habsent '\r' rfl), Record.text, List.append_assoc]
    rfl
  rw [hlines, ofLines_cons (by simp [hne]) hblank]

theorem Reads.text (hmark : ∀ c ∈ mark, Text.isBlank c = false) (hne : mark ≠ [])
    (h : ∀ k, read p ⟨k, mark ++ Record.digits bs, mark ++ Record.digits bs⟩ = .ok q) :
    Reads read p (Record.text mark bs) q := by
  intro k rest
  refine ⟨k + 1, ?_⟩
  rw [ofLines_text hmark hne, List.foldlM_cons, h]
  rfl

theorem Reads.refused (hcs : Reads read p cs q) (hmark : ∀ c ∈ mark, Text.isBlank c = false)
    (hne : mark ≠ [])
    (h : ∀ k, ∃ e, read q ⟨k, mark ++ Record.digits bs, mark ++ Record.digits bs⟩ = .error e) :
    ∃ e, (ofText (cs ++ (Record.text mark bs ++ ds))).foldlM read p = .error e := by
  obtain ⟨k', hk⟩ := hcs 1 (Record.text mark bs ++ ds)
  obtain ⟨e, he⟩ := h k'
  refine ⟨e, ?_⟩
  rw [ofText_eq_ofLines, hk, ofLines_text hmark hne, List.foldlM_cons, he]
  rfl

end RecordLine

end ColdFire
