import ColdFire.Listing
import ColdFire.Proofs.Execution.Undo
import ColdFire.Proofs.Instruction.Extent
import ColdFire.Proofs.Memory.Image
import ColdFire.Proofs.Registry.Decoded

namespace ColdFire

variable {β : Type} [Bus β]

def Bus.Holds (bus : β) (address : UInt32) (ws : List UInt16) : Prop :=
  ∀ i (h : i < ws.length),
    (Bus.read bus .word (address + UInt32.ofNat (2 * i))).map UInt32.toUInt16 = .ok ws[i]

namespace Bus.Holds

variable {bus : β} {address : UInt32} {vs ws : List UInt16}

theorem single {v : UInt32} (h : Bus.read bus .word address = .ok v) :
    Holds bus address [v.toUInt16] := by
  intro i hi
  obtain rfl : i = 0 := Nat.lt_one_iff.1 hi
  have hplace : address + UInt32.ofNat (2 * 0) = address := UInt32.add_zero address
  rw [hplace, h]
  rfl

theorem append (hv : Holds bus address vs)
    (hw : Holds bus (address + UInt32.ofNat (2 * vs.length)) ws) :
    Holds bus address (vs ++ ws) := by
  intro i hi
  rw [List.length_append] at hi
  by_cases h : i < vs.length
  · rw [List.getElem_append_left h]
    exact hv i h
  · have hplace : address + UInt32.ofNat (2 * i) =
        address + UInt32.ofNat (2 * vs.length) + UInt32.ofNat (2 * (i - vs.length)) := by
      rw [UInt32.add_assoc, ← UInt32.ofNat_add]
      congr 2
      omega
    rw [List.getElem_append_right (by omega), hplace]
    exact hw _ (by omega)

theorem cons {w : UInt16} (hfirst : Holds bus address [w]) (h : Holds bus (address + 2) ws) :
    Holds bus address (w :: ws) := append hfirst h

end Bus.Holds

namespace ListingLine

/-- The address behind a line, which may be beyond 32 bits. -/
def limit (l : ListingLine) : Nat := l.address.toNat + 2 * l.words.length

/-- A line shows a few words as they stand at its address. -/
structure Shows (bus : β) (l : ListingLine) : Prop where
  pos : 0 < l.words.length
  short : l.words.length ≤ 5
  holds : Bus.Holds bus l.address l.words

end ListingLine

namespace Listing

variable {bus : β} {r : Registry} {tier : Tier} {address first limit : UInt32}

section Line

theorem instructionWords_of_decode {d : Definition} {v : UInt32} {decoded : Decoded} {c : Cursor}
    (hread : Bus.read bus .word address = .ok v)
    (hdecode : d.decode (.inMemory bus v.toUInt16 address) .start = .ok decoded c) :
    ∃ ws, instructionWords bus decoded = .ok ws ∧ 0 < ws.length ∧ ws.length ≤ 5 ∧
      Bus.Holds bus address ws := by
  obtain ⟨haddress, hshort, hext⟩ := Definition.extent_of_decode hdecode
  have hword : ∀ k : Fin decoded.extWords, ∃ w,
      (Bus.read bus .word (address + 2 + UInt32.ofNat (2 * k))).map UInt32.toUInt16 = .ok w := by
    intro k
    obtain ⟨w, hw⟩ := hext k k.isLt
    obtain ⟨u, hu, rfl⟩ := except_map_eq_ok.1 hw
    exact ⟨u.toUInt16, except_map_eq_ok.2 ⟨u, fetch_eq_ok.1 hu, rfl⟩⟩
  choose w hw using hword
  have hholds : Bus.Holds bus address (v.toUInt16 :: List.ofFn w) := by
    refine .cons (.single hread) fun i hi => ?_
    rw [List.length_ofFn] at hi
    rw [List.getElem_ofFn]
    exact hw ⟨i, hi⟩
  have hlength : (v.toUInt16 :: List.ofFn w).length = 1 + decoded.extWords := by
    rw [List.length_cons, List.length_ofFn, Nat.add_comm]
  refine ⟨v.toUInt16 :: List.ofFn w, ?_, Nat.succ_pos _, by omega, hholds⟩
  unfold instructionWords
  rw [haddress, Image.mapM_range_eq_ok]
  exact ⟨hlength, hholds⟩

theorem shows_dataLine {v : UInt32} (hread : Bus.read bus .word address = .ok v) :
    (dataLine address v.toUInt16).Shows bus where
  pos := Nat.one_pos
  short := Nat.le_add_left 1 4
  holds := .single hread

theorem line_of_decode {v : UInt32} {decoded : Decoded} {c : Cursor}
    (hread : Bus.read bus .word address = .ok v)
    (hdecode : r.decode tier (.inMemory bus v.toUInt16 address) .start = .ok (some decoded) c) :
    line bus r tier address =
      (instructionWords bus decoded).map fun ws => ⟨address, ws, decoded.text, some decoded⟩ := by
  simp only [line, hread, bind, Except.bind, hdecode]
  rfl

theorem line_of_not_decode {v : UInt32} (hread : Bus.read bus .word address = .ok v)
    (hdecode : ∀ decoded c,
      r.decode tier (.inMemory bus v.toUInt16 address) .start ≠ .ok (some decoded) c) :
    line bus r tier address = .ok (dataLine address v.toUInt16) := by
  unfold line
  rw [hread]
  dsimp only [bind, Except.bind]
  split
  · rename_i decoded c h
    exact absurd h (hdecode decoded c)
  · rfl

theorem exists_line {v : UInt32} (hread : Bus.read bus .word address = .ok v) (r : Registry)
    (tier : Tier) :
    ∃ l, line bus r tier address = .ok l ∧ l.address = address ∧ l.Shows bus := by
  by_cases hdecodes : ∃ decoded c,
      r.decode tier (.inMemory bus v.toUInt16 address) .start = .ok (some decoded) c
  · obtain ⟨decoded, c, hdecode⟩ := hdecodes
    obtain ⟨x, -, hdecoded⟩ := Registry.of_decode_some hdecode
    obtain ⟨ws, hws, hpos, hshort, hholds⟩ := instructionWords_of_decode hread hdecoded
    have hline := line_of_decode hread hdecode
    rw [hws] at hline
    exact ⟨_, hline, rfl, hpos, hshort, hholds⟩
  · have hdata : ∀ decoded c,
        r.decode tier (.inMemory bus v.toUInt16 address) .start ≠ .ok (some decoded) c :=
      fun decoded c hdecode => hdecodes ⟨decoded, c, hdecode⟩
    exact ⟨_, line_of_not_decode hread hdata, rfl, shows_dataLine hread⟩

end Line

/-- Lines cover the addresses from `first` up to `limit`: they stand one behind the other, none of
them begins outside, the last one comes up to the limit, and their words are those of memory. -/
structure Tiles (bus : β) (first limit : UInt32) (ls : List ListingLine) : Prop where
  starts : first < limit → ls.head?.map (·.address) = some first
  follows : ls.IsChain fun l l' => l'.address.toNat = l.limit
  inside : ∀ l ∈ ls, first ≤ l.address ∧ l.address < limit
  reaches : ∀ l ∈ ls.getLast?, limit.toNat ≤ l.limit
  holds : Bus.Holds bus first (ls.flatMap (·.words))

/-- The lines from a place on, each one behind the one before. Places do not wrap around. -/
inductive Sweep (bus : β) (r : Registry) (tier : Tier) (limit : UInt32) :
    Nat → List ListingLine → Prop
  | done {place : Nat} (h : limit.toNat ≤ place) : Sweep bus r tier limit place []
  | next {l : ListingLine} {rest : List ListingLine} (below : l.address < limit)
      (hline : line bus r tier l.address = .ok l) (hshows : l.Shows bus)
      (tail : Sweep bus r tier limit l.limit rest) :
      Sweep bus r tier limit l.address.toNat (l :: rest)

/-- A listing that is not over shows a line, and then those behind it. -/
theorem linesFrom_inv {fuel : Nat} {ls : List ListingLine} (below : address < limit)
    (h : linesFrom bus r tier limit fuel address = .ok ls) :
    ∃ l rest fuel', line bus r tier address = .ok l ∧
      linesFrom bus r tier limit fuel' (address + UInt32.ofNat (2 * l.words.length)) = .ok rest ∧
      ls = l :: rest := by
  cases fuel with
  | zero =>
    rw [linesFrom, if_pos below] at h
    cases h
  | succ fuel =>
    rw [linesFrom, if_pos below] at h
    obtain ⟨l, hl, h⟩ := except_bind_eq_ok.1 h
    obtain ⟨rest, hrest, h⟩ := except_bind_eq_ok.1 h
    exact ⟨l, rest, fuel, hl, hrest, (except_pure_eq_ok.1 h).symm⟩

theorem exists_sweep (r : Registry) (tier : Tier)
    (readable : ∀ k, first.toNat + 2 * k < limit.toNat →
      ∃ v, Bus.read bus .word (first + UInt32.ofNat (2 * k)) = .ok v) (k : Nat) :
    ∃ ls, Sweep bus r tier limit (first.toNat + 2 * k) ls := by
  -- a line has a word at least, so what is left of the range becomes shorter
  by_cases hk : first.toNat + 2 * k < limit.toNat
  · obtain ⟨v, hv⟩ := readable k hk
    obtain ⟨l, hline, haddress, hshows⟩ := exists_line hv r tier
    have hplace : l.address.toNat = first.toNat + 2 * k := by
      have := limit.toNat_lt
      rw [haddress, toNat_add_ofNat (by omega)]
    have hpos := hshows.pos
    obtain ⟨ls, hls⟩ := exists_sweep r tier readable (k + l.words.length)
    have hnext : first.toNat + 2 * (k + l.words.length) = l.limit := by
      rw [ListingLine.limit, hplace]
      omega
    rw [← hplace]
    rw [hnext] at hls
    rw [← haddress] at hline
    exact ⟨l :: ls, .next (UInt32.lt_iff_toNat_lt.2 (hplace ▸ hk)) hline hshows hls⟩
  · exact ⟨[], .done (by omega)⟩
termination_by limit.toNat - (first.toNat + 2 * k)

namespace Sweep

variable {place : Nat} {ls : List ListingLine} {fuel : Nat}

theorem starts (h : Sweep bus r tier limit place ls) (hlt : place < limit.toNat) :
    ls.head?.map (·.address.toNat) = some place := by
  cases h with
  | done hle => omega
  | next => rfl

theorem follows (h : Sweep bus r tier limit place ls) :
    ls.IsChain fun l l' => l'.address.toNat = l.limit := by
  induction h with
  | done _ => exact .nil
  | @next l _ _ _ _ tail ih =>
    -- the place behind a line is the address of the next one, or the end
    generalize hplace : l.limit = place at tail
    cases tail with
    | done _ => exact .singleton l
    | next => exact .cons_cons hplace.symm ih

theorem inside (h : Sweep bus r tier limit place ls) :
    ∀ l ∈ ls, place ≤ l.address.toNat ∧ l.address < limit := by
  induction h with
  | done _ => exact List.forall_mem_nil _
  | @next l _ below _ _ _ ih =>
    intro l' hl'
    rcases List.mem_cons.1 hl' with rfl | hl'
    · exact ⟨Nat.le_refl _, below⟩
    · exact ⟨Nat.le_trans (Nat.le_add_right _ _) (ih l' hl').1, (ih l' hl').2⟩

theorem are_lines (h : Sweep bus r tier limit place ls) :
    ∀ l ∈ ls, line bus r tier l.address = .ok l := by
  induction h with
  | done _ => exact List.forall_mem_nil _
  | next _ hline _ _ ih => exact List.forall_mem_cons.2 ⟨hline, ih⟩

theorem reaches (h : Sweep bus r tier limit place ls) :
    ∀ l ∈ ls.getLast?, limit.toNat ≤ l.limit := by
  induction h with
  | done _ =>
    intro l hl
    cases hl
  | @next l _ _ _ _ tail ih =>
    generalize hplace : l.limit = place at tail
    cases tail with
    | done hle =>
      rintro l' ⟨⟩
      exact hplace ▸ hle
    | next => simpa only [List.getLast?_cons_cons] using ih

theorem holds (h : Sweep bus r tier limit place ls) :
    Bus.Holds bus (UInt32.ofNat place) (ls.flatMap (·.words)) := by
  induction h with
  | done _ => exact nofun
  | @next l _ _ _ hshows _ ih =>
    rw [ListingLine.limit, UInt32.ofNat_add] at ih
    rw [UInt32.ofNat_toNat] at ih ⊢
    exact .append hshows.holds ih

theorem tiles (h : Sweep bus r tier limit first.toNat ls) : Tiles bus first limit ls where
  starts hlt := by
    have hhead := h.starts (UInt32.lt_iff_toNat_lt.1 hlt)
    cases ls with
    | nil => cases hhead
    | cons l rest => exact congrArg some (UInt32.toNat_inj.1 (Option.some.inj hhead))
  follows := h.follows
  inside l hl := ⟨UInt32.le_iff_toNat_le.2 (h.inside l hl).1, (h.inside l hl).2⟩
  reaches := h.reaches
  holds := UInt32.ofNat_toNat (x := first) ▸ h.holds

theorem linesFrom_eq (h : Sweep bus r tier limit place ls)
    (hend : place + 2 * (ls.flatMap (·.words)).length < 2 ^ 32)
    (hfuel : limit.toNat ≤ place + 2 * fuel) (haddress : address.toNat = place) :
    linesFrom bus r tier limit fuel address = .ok ls := by
  -- as long as a place is below 2 ^ 32 it is the address of its line, and the next place is too
  induction h generalizing fuel address with
  | done hle =>
    have hge : ¬ address < limit := by
      rw [UInt32.lt_iff_toNat_lt]
      omega
    cases fuel with
    | zero => exact if_neg hge
    | succ fuel => exact if_neg hge
  | @next l rest below hline hshows tail ih =>
    obtain rfl := UInt32.toNat_inj.1 haddress
    have hpos := hshows.pos
    have hlt := UInt32.lt_iff_toNat_lt.1 below
    rw [List.flatMap_cons, List.length_append] at hend
    have hnext : (l.address + UInt32.ofNat (2 * l.words.length)).toNat = l.limit := by
      rw [ListingLine.limit, toNat_add_ofNat (by omega)]
    cases fuel with
    | zero => omega
    | succ fuel =>
      have hrest : linesFrom bus r tier limit fuel _ = .ok rest :=
        ih (by rw [ListingLine.limit]; omega) (by rw [ListingLine.limit]; omega) hnext
      rw [linesFrom, if_pos below, hline]
      change (linesFrom bus r tier limit fuel _ >>= fun rest => pure (l :: rest)) = _
      rw [hrest]
      rfl

theorem linesFrom_ne (h : Sweep bus r tier limit place ls)
    (hend : 2 ^ 32 ≤ place + 2 * (ls.flatMap (·.words)).length)
    (haddress : address.toNat = place) : linesFrom bus r tier limit fuel address ≠ .ok ls := by
  induction h generalizing fuel address with
  | done _ =>
    have hlt := address.toNat_lt
    exact absurd hend (by simpa using haddress ▸ hlt)
  | @next l rest below hline hshows tail ih =>
    obtain rfl := UInt32.toNat_inj.1 haddress
    intro hlines
    obtain ⟨l', rest', fuel', hl', hrest, hcons⟩ := linesFrom_inv below hlines
    cases hline.symm.trans hl'
    obtain rfl := (List.cons_inj_right l).1 hcons
    rw [List.flatMap_cons, List.length_append] at hend
    -- down to the line that ends at the top, behind which the listing is not over
    by_cases hwrap : l.limit < 2 ^ 32
    · rw [ListingLine.limit] at ih hwrap
      exact ih (by omega) (toNat_add_ofNat hwrap) hrest
    · -- the place behind the line is past every limit, its address is not
      have hbelow : l.address + UInt32.ofNat (2 * l.words.length) < limit := by
        have := l.address.toNat_lt
        have := hshows.short
        have := UInt32.lt_iff_toNat_lt.1 below
        rw [ListingLine.limit] at hwrap
        rw [UInt32.lt_iff_toNat_lt, UInt32.toNat_add, UInt32.toNat_ofNat']
        omega
      obtain ⟨l', rest', -, -, -, rfl⟩ := linesFrom_inv hbelow hrest
      have hplace := (tail.inside l' List.mem_cons_self).1
      have := l'.address.toNat_lt
      omega

end Sweep

/-- Where every word of a range can be read, there are lines that tile the range. They are what the
listing of the range consists of, provided that they stop short of the highest address: behind that
the listing would go on at the lowest one. -/
theorem lines_tile (bus : β) (r : Registry) (tier : Tier) (first limit : UInt32)
    (readable : ∀ k, first.toNat + 2 * k < limit.toNat →
      ∃ v, Bus.read bus .word (first + UInt32.ofNat (2 * k)) = .ok v) :
    ∃ ls, Tiles bus first limit ls ∧ (∀ l ∈ ls, line bus r tier l.address = .ok l) ∧
      (lines bus r tier first limit = .ok ls ↔
        first.toNat + 2 * (ls.flatMap (·.words)).length < 2 ^ 32) := by
  obtain ⟨ls, hsweep⟩ := exists_sweep r tier readable 0
  refine ⟨ls, hsweep.tiles, hsweep.are_lines, fun hlines => ?_, fun hend => ?_⟩
  · by_contra hend
    exact hsweep.linesFrom_ne (Nat.not_lt.1 hend) rfl hlines
  · refine hsweep.linesFrom_eq hend ?_ rfl
    have := limit.toNat_lt
    omega

theorem lines_tile_nops :
    let bus := (LinearMemory.zeroed 4 0x1000).setBytes 0 [0x4E, 0x71, 0x4E, 0x71]
    ∃ ls, Tiles bus 0x1000 0x1004 ls ∧ lines bus .full .c 0x1000 0x1004 = .ok ls := by
  intro bus
  have readable : ∀ k, (0x1000 : UInt32).toNat + 2 * k < (0x1004 : UInt32).toNat →
      ∃ v, Bus.read bus .word (0x1000 + UInt32.ofNat (2 * k)) = .ok v := by
    intro k hk
    change 0x1000 + 2 * k < 0x1004 at hk
    obtain rfl | rfl : k = 0 ∨ k = 1 := by omega
    · exact ⟨0x4E71, by decide⟩
    · exact ⟨0x4E71, by decide⟩
  obtain ⟨ls, htiles, -, hlines⟩ := lines_tile bus .full .c 0x1000 0x1004 readable
  refine ⟨ls, htiles, hlines.2 ?_⟩
  change 0x1000 + 2 * (ls.flatMap (·.words)).length < 2 ^ 32
  have hshort : (ls.flatMap (·.words)).length ≤ 2 := by
    by_contra hlong
    have hword := htiles.holds 2 (by omega)
    have hunread : (Bus.read bus .word (0x1000 + UInt32.ofNat (2 * 2))).toOption = none := by decide
    obtain ⟨v, hv, -⟩ := except_map_eq_ok.1 hword
    rw [hv] at hunread
    cases hunread
  omega

/-- The highest word of the address space is its last, but the listing of it reads on at address 0,
where this image has nothing. -/
theorem not_lines_tile_top :
    let bus := Image.empty.writeWords 0xFFFFFFFE [0xFFFF]
    (∀ k, (0xFFFFFFFE : UInt32).toNat + 2 * k < (0xFFFFFFFF : UInt32).toNat →
      ∃ v, Bus.read bus .word (0xFFFFFFFE + UInt32.ofNat (2 * k)) = .ok v) ∧
    ¬ ∃ ls, lines bus .full .c 0xFFFFFFFE 0xFFFFFFFF = .ok ls := by
  intro bus
  have hunread : ∀ v, Bus.read bus .word 0 ≠ .ok v := by
    intro v hv
    have hnone : (Bus.read bus .word 0).toOption = none := by decide
    rw [hv] at hnone
    cases hnone
  have htop : Bus.read bus .word 0xFFFFFFFE = .ok 0xFFFF := by decide
  constructor
  · intro k hk
    change 0xFFFFFFFE + 2 * k < 0xFFFFFFFF at hk
    obtain rfl : k = 0 := by omega
    exact ⟨0xFFFF, htop⟩
  · rintro ⟨ls, hls⟩
    obtain ⟨l, rest, _, hl, hrest, -⟩ := linesFrom_inv (by decide) hls
    obtain ⟨_, hl', haddress, hshows⟩ := exists_line htop .full .c
    cases hl.symm.trans hl'
    have hone : l.words.length = 1 := by
      have hpos := hshows.pos
      by_contra hlong
      obtain ⟨v, hv, -⟩ := except_map_eq_ok.1 (hshows.holds 1 (by omega))
      rw [haddress] at hv
      exact hunread v hv
    rw [hone] at hrest
    obtain ⟨_, _, _, hnext, -, -⟩ := linesFrom_inv (by decide) hrest
    obtain ⟨v, hv, -⟩ := except_bind_eq_ok.1 hnext
    exact hunread v hv

end Listing

end ColdFire
