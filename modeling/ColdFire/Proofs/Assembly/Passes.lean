import ColdFire.Proofs.Assembly.Placement

namespace ColdFire

theorem except_exists_of_any {ε α : Type} {x : Except ε α} {f : α → Bool}
    (h : x.toOption.any f = true) : ∃ a, x = .ok a ∧ f a = true := by
  cases x with
  | ok a => exact ⟨a, rfl, h⟩
  | error e => cases h

namespace Assembly

def Line.emits (line : Line) : Bool :=
  match line.statement with
  | some (.data _ values) => !values.isEmpty
  | some (.instruction ..) => true
  | _ => false

def Line.isSilent (line : Line) : Bool :=
  match line.statement with
  | none => true
  | some (.data _ values) => values.isEmpty
  | _ => false

end Assembly

theorem Registry.length_pos_of_encode {r : Registry} {name : String} {ops : Operands} {tier : Tier}
    {words : List UInt16} (h : r.encode name ops tier = .ok words) : 0 < words.length := by
  rw [encode, except_bind_eq_ok] at h
  obtain ⟨r, -, h⟩ := h
  rw [Encoding.words, except_bind_eq_ok] at h
  obtain ⟨pieces, -, h⟩ := h
  obtain rfl := except_pure_eq_ok.1 h
  exact Nat.succ_pos _

namespace Assembler

open Assembly

variable {a : Assembler} {tier : Tier} {symbols final : Symbols} {pc next : UInt32}
  {p q : Placement} {ps : List Placement} {e e' : Emission}

/-- What the first pass has found out about a line: its label has its address for a value, and its
statement leads to `next` with what was known of the symbols by then. -/
structure Settled (a : Assembler) (final : Symbols) (p : Placement) (next : UInt32) : Prop where
  label : ∀ name, p.line.label = some name → final[name]? = some p.address
  size : p.line.statement = none → next = p.address
  place : ∀ st, p.line.statement = some st → ∃ symbols : Symbols, symbols.Within final ∧
    a.place ⟨symbols, false, p.line.number⟩ p.address st = .ok (p.size, p.length, next)

inductive AllSettled (a : Assembler) (final : Symbols) : UInt32 → List Placement → Prop where
  | nil (pc : UInt32) : AllSettled a final pc []
  | cons {p : Placement} {next : UInt32} {rest : List Placement} (hp : a.Settled final p next)
      (hrest : AllSettled a final next rest) : AllSettled a final p.address (p :: rest)

theorem define_eq_ok {line : Line} {symbols' : Symbols} (h : define symbols pc line = .ok symbols') :
    symbols.Within symbols' ∧ (∀ name, line.label = some name → symbols'[name]? = some pc) ∧
      ∀ (name : String) (addr : UInt32), symbols'[name]? = some addr →
        symbols[name]? = some addr ∨ line.label = some name ∧ addr = pc := by
  unfold define at h
  split at h
  · rename_i hlabel
    cases h
    refine ⟨fun _ _ haddr => haddr, ?_, fun _ _ haddr => .inl haddr⟩
    intro name hname
    rw [hlabel] at hname
    cases hname
  · rename_i label hlabel
    split at h
    · cases h
    · rename_i hfresh
      cases h
      -- the label is new, so nothing that was defined is hidden by it
      have hinsert (name : String) :
          (symbols.insert label pc)[name]? = if label = name then some pc else symbols[name]? := by
        rw [Std.ExtTreeMap.getElem?_insert]
        simp only [Std.LawfulEqCmp.compare_eq_iff_eq]
      refine ⟨?_, ?_, ?_⟩
      · intro name addr haddr
        rw [hinsert, if_neg ?_]
        · exact haddr
        · rintro rfl
          rw [Std.ExtTreeMap.getElem?_eq_none (by simpa using hfresh)] at haddr
          cases haddr
      · intro name hname
        obtain rfl := Option.some.inj (hlabel.symm.trans hname)
        rw [hinsert, if_pos rfl]
      · intro name addr haddr
        rw [hinsert] at haddr
        split at haddr
        · rename_i hname
          exact .inr ⟨hname ▸ hlabel, (Option.some.inj haddr).symm⟩
        · exact .inl haddr

theorem plan_cons {line : Line} {rest : List Line}
    (h : a.plan symbols pc (line :: rest) = .ok (final, ps)) :
    ∃ known size length next placements, define symbols pc line = .ok known ∧
      (line.statement = none → next = pc) ∧
      (∀ st, line.statement = some st →
        a.place ⟨known, false, line.number⟩ pc st = .ok (size, length, next)) ∧
      a.plan known next rest = .ok (final, placements) ∧
      ps = ⟨line, pc, size, length⟩ :: placements := by
  rw [plan, except_bind_eq_ok] at h
  obtain ⟨known, hdefine, h⟩ := h
  dsimp only at h
  cases hst : line.statement with
  | none =>
    rw [hst] at h
    simp only [pure_bind] at h
    obtain ⟨⟨final', placements⟩, hrest, h⟩ := except_bind_eq_ok.1 h
    cases h
    exact ⟨known, _, _, _, placements, hdefine, fun _ => rfl, nofun, hrest, rfl⟩
  | some st =>
    rw [hst] at h
    obtain ⟨⟨size, length, next⟩, hplace, h⟩ := except_bind_eq_ok.1 h
    obtain ⟨⟨final', placements⟩, hrest, h⟩ := except_bind_eq_ok.1 h
    cases h
    refine ⟨known, size, length, next, placements, hdefine, nofun, ?_, hrest, rfl⟩
    rintro _ ⟨⟩
    exact hplace

/-- The first pass settles every line, keeps the values of all labels, and takes none from elsewhere. -/
theorem of_plan {lines : List Line} (h : a.plan symbols pc lines = .ok (final, ps)) :
    symbols.Within final ∧ a.AllSettled final pc ps ∧
      ∀ (name : String) (addr : UInt32), final[name]? = some addr → symbols[name]? = some addr ∨
        ∃ p ∈ ps, p.line.label = some name ∧ p.address = addr := by
  -- every line is planned with the symbols that the lines before it have left
  induction lines generalizing symbols pc ps with
  | nil =>
    cases h
    exact ⟨fun _ _ haddr => haddr, .nil pc, fun _ _ haddr => .inl haddr⟩
  | cons line rest ih =>
    obtain ⟨known, size, length, next, placements, hdefine, hnone, hplace, hrest, rfl⟩ := plan_cons h
    obtain ⟨hkeeps, hlabel, hfrom⟩ := define_eq_ok hdefine
    obtain ⟨hwithin, hsettled, hsource⟩ := ih hrest
    refine ⟨fun name addr haddr => hwithin _ _ (hkeeps _ _ haddr),
      .cons (p := ⟨line, pc, size, length⟩) ⟨?_, ?_, ?_⟩ hsettled, ?_⟩
    · intro name hname
      exact hwithin _ _ (hlabel name hname)
    · exact hnone
    · intro st hst
      exact ⟨known, hwithin, hplace st hst⟩
    · intro name addr haddr
      rcases hsource name addr haddr with hknown | ⟨p, hp, hname⟩
      · rcases hfrom name addr hknown with hold | ⟨hname, rfl⟩
        · exact .inl hold
        · exact .inr ⟨_, List.mem_cons_self, hname, rfl⟩
      · exact .inr ⟨p, List.mem_cons_of_mem _ hp, hname⟩

theorem emit_of_settled (hp : (Assembler.mk .full tier).Settled final p next)
    (hpc : e.pc = p.address) :
    KeepsSizes ((Assembler.mk .full tier).emit final e p) ∧
      ∀ e', (Assembler.mk .full tier).emit final e p = .ok e' → e'.pc = next := by
  unfold emit
  cases hst : p.line.statement with
  | none =>
    refine ⟨.ok _, ?_⟩
    rintro e' ⟨⟩
    rw [hpc, hp.size hst]
  | some st =>
    obtain ⟨symbols, hwithin, hplace⟩ := hp.place st hst
    exact emitStatement_of_place hwithin hplace hpc

theorem foldlM_of_settled (h : (Assembler.mk .full tier).AllSettled final pc ps) (hpc : e.pc = pc) :
    KeepsSizes (ps.foldlM ((Assembler.mk .full tier).emit final) e) ∧
      ∀ k e', (ps.take k).foldlM ((Assembler.mk .full tier).emit final) e = .ok e' →
        ∀ p, ps[k]? = some p → e'.pc = p.address := by
  -- on the lines: each is emitted where the one before has left the location counter
  induction h generalizing e with
  | nil => exact ⟨.ok _, fun _ _ _ _ hp => by cases hp⟩
  | @cons p next rest hp _ ih =>
    obtain ⟨hkeeps, hnext⟩ := emit_of_settled hp hpc
    constructor
    · rw [List.foldlM_cons]
      exact .bind hkeeps fun e' he => (ih (hnext e' he)).1
    · intro k e' h q hq
      cases k with
      | zero =>
        cases h
        cases hq
        exact hpc
      | succ k =>
        rw [List.take_succ_cons, List.foldlM_cons, except_bind_eq_ok] at h
        obtain ⟨e₁, he₁, h⟩ := h
        exact (ih (hnext e₁ he₁)).2 k e' h q hq

theorem AllSettled.head (h : a.AllSettled final pc (p :: ps)) : p.address = pc := by
  cases h
  rfl

theorem AllSettled.settled (h : a.AllSettled final pc ps) {k : Nat} (hp : ps[k]? = some p)
    (hq : ps[k + 1]? = some q) : a.Settled final p q.address := by
  induction h generalizing k with
  | nil => cases hp
  | @cons p' next rest hp' hrest ih =>
    cases k with
    | succ k => exact ih hp hq
    | zero =>
      cases hp
      cases rest with
      | nil => cases hq
      | cons q' rest =>
        cases hq
        rw [hrest.head]
        exact hp'

theorem Settled.next_of_silent (hp : a.Settled final p next) (h : p.line.isSilent = true) :
    next = p.address := by
  unfold Line.isSilent at h
  split at h
  · exact hp.size ‹_›
  · rename_i size values hst
    obtain ⟨_, -, hplace⟩ := hp.place _ hst
    have hnext : p.address + UInt32.ofNat (size.bytes * values.length) = next :=
      congrArg (·.2.2) (Except.ok.inj hplace)
    rw [← hnext, List.isEmpty_iff.mp h, List.length_nil, Nat.mul_zero]
    exact UInt32.add_zero _
  · cases h

theorem AllSettled.address_of_silent (h : a.AllSettled final pc ps) {i : Nat} (hp : ps[i]? = some p)
    (n : Nat) (hq : ps[i + n]? = some q)
    (hsilent : ∀ k r, i ≤ k → k < i + n → ps[k]? = some r → r.line.isSilent = true) :
    q.address = p.address := by
  -- on the number of lines in between, the last of which leads to where it stands
  induction n generalizing q with
  | zero =>
    rw [Nat.add_zero, hp] at hq
    cases hq
    rfl
  | succ n ih =>
    have hlt : i + n < ps.length := by
      have := (List.getElem?_eq_some_iff.mp hq).1
      omega
    have hr := List.getElem?_eq_getElem hlt
    have hnext := (h.settled hr hq).next_of_silent
      (hsilent (i + n) _ (Nat.le_add_right _ _) (by omega) hr)
    rw [hnext]
    exact ih hr fun k r hik hkn => hsilent k r hik (by omega)

theorem writes_of_emits (hemits : p.line.emits = true) (h : a.emit final e p = .ok e') :
    ∃ byte rest, e.Writes e' (byte :: rest) := by
  suffices hbytes : ∃ bytes, e.Writes e' bytes ∧ 0 < bytes.length by
    obtain ⟨bytes, hwrites, hpos⟩ := hbytes
    obtain ⟨byte, rest, rfl⟩ := List.exists_cons_of_length_pos hpos
    exact ⟨byte, rest, hwrites⟩
  unfold Line.emits at hemits
  unfold emit at h
  split at hemits
  · rename_i size values hst
    rw [hst] at h
    obtain ⟨bytes, hwrites, hlength⟩ := writes_emitData h
    refine ⟨bytes, ⟨hwrites.image, hwrites.pc⟩, ?_⟩
    have hvalues : 0 < values.length := List.length_pos_iff.mpr (by simpa using hemits)
    have hsize : 0 < size.bytes := by cases size <;> decide
    rw [hlength]
    exact Nat.mul_pos hsize hvalues
  · rename_i hst
    rw [hst] at h
    obtain ⟨ops, known, words, -, hwords, -, hwrites⟩ := of_emit_instruction h
    refine ⟨_, hwrites, ?_⟩
    have hne : 0 < words.length := Registry.length_pos_of_encode hwords
    rw [Image.length_wordBytes]
    omega
  · cases hemits

def emitted (a : Assembler) (symbols : Symbols) (placements : List Placement) (k : Nat) :
    Except AssemblyError Emission :=
  (placements.take k).foldlM (a.emit symbols) {}

theorem assemble_eq {source : String} {lines : List Line} (hlines : parseLines source = .ok lines)
    (hplan : a.plan ∅ 0 lines = .ok (symbols, ps)) :
    a.assemble source = ps.foldlM (a.emit symbols) {} >>= fun e =>
      .ok ⟨{ e.image with start := symbols["start"]?.or e.first }, symbols⟩ := by
  rw [assemble, hlines]
  change (a.plan ∅ 0 lines >>= _) = _
  rw [hplan]
  rfl

theorem emitted_of_foldlM (h : ps.foldlM (a.emit symbols) {} = .ok e) {k : Nat}
    (hp : ps[k]? = some p) :
    ∃ before after, a.emitted symbols ps k = .ok before ∧ a.emit symbols before p = .ok after := by
  obtain ⟨hk, rfl⟩ := List.getElem?_eq_some_iff.mp hp
  rw [← List.take_append_drop k ps, List.foldlM_append, except_bind_eq_ok] at h
  obtain ⟨before, hbefore, h⟩ := h
  rw [List.drop_eq_getElem_cons hk, List.foldlM_cons, except_bind_eq_ok] at h
  obtain ⟨after, hafter, -⟩ := h
  exact ⟨before, after, hbefore, hafter⟩

/-- The passes agree. The second finds each line where the first has placed it, for as long as nothing
fails, and it never fails because an instruction has changed its length. If it succeeds, every symbol
has the value of the address at which the first byte is written that comes from its own line, or from
the next line that writes bytes if only silent lines are in between. -/
theorem passes_agree (tier : Tier) {source : String} {lines : List Line}
    (hlines : parseLines source = .ok lines)
    (hplan : (Assembler.mk .full tier).plan ∅ 0 lines = .ok (symbols, ps)) :
    (∀ k e p, (Assembler.mk .full tier).emitted symbols ps k = .ok e → ps[k]? = some p →
      e.pc = p.address) ∧
    (∀ line name before after, (Assembler.mk .full tier).assemble source ≠
      .error (.badSyntax line (.sizeChanged name before after))) ∧
    ∀ program, (Assembler.mk .full tier).assemble source = .ok program →
      ∀ (name : String) (addr : UInt32), program.symbols[name]? = some addr →
        ∃ i p, ps[i]? = some p ∧ p.line.label = some name ∧ p.address = addr ∧
          ∀ n q, ps[i + n]? = some q → q.line.emits = true →
            (∀ k r, i ≤ k → k < i + n → ps[k]? = some r → r.line.isSilent = true) →
            ∃ e e' byte rest, (Assembler.mk .full tier).emitted symbols ps (i + n) = .ok e ∧
              (Assembler.mk .full tier).emit symbols e q = .ok e' ∧ e.pc = addr ∧
              e'.image = e.image.writeBytes addr (byte :: rest) := by
  obtain ⟨-, hsettled, hsource⟩ := of_plan hplan
  obtain ⟨hkeeps, hreached⟩ := foldlM_of_settled (e := {}) hsettled rfl
  have haddress (k : Nat) (e : Emission) (p : Placement)
      (he : (Assembler.mk .full tier).emitted symbols ps k = .ok e) (hp : ps[k]? = some p) :
      e.pc = p.address :=
    hreached k e he p hp
  refine ⟨haddress, ?_, ?_⟩
  · rw [assemble_eq hlines hplan]
    exact hkeeps.bind fun _ _ => .ok _
  · -- a symbol has come from the label of some line, and between that line and the next that writes
    -- bytes the location counter stands still
    intro program hprogram name addr haddr
    rw [assemble_eq hlines hplan, except_bind_eq_ok] at hprogram
    obtain ⟨last, hlast, hprogram⟩ := hprogram
    cases hprogram
    obtain hnone | ⟨p, hp, hname, rfl⟩ := hsource name addr haddr
    · simp at hnone
    · obtain ⟨i, hi, rfl⟩ := List.mem_iff_getElem.mp hp
      have hpi := List.getElem?_eq_getElem hi
      refine ⟨i, ps[i], hpi, hname, rfl, ?_⟩
      intro n q hq hemits hsilent
      obtain ⟨before, after, hbefore, hafter⟩ := emitted_of_foldlM hlast hq
      obtain ⟨byte, rest, hwrites⟩ := writes_of_emits hemits hafter
      have hpc : before.pc = ps[i].address :=
        (haddress _ _ _ hbefore hq).trans (hsettled.address_of_silent hpi n hq hsilent)
      exact ⟨before, after, byte, rest, hbefore, hafter, hpc, hpc ▸ hwrites.image⟩

set_option maxRecDepth 1000 in
theorem passes_agree_forward :
    let a : Assembler := ⟨.full, .a⟩
    let source := "  bra done\n  nop\ndone: rts\n"
    ∃ lines symbols ps program, parseLines source = .ok lines ∧
      a.plan ∅ 0 lines = .ok (symbols, ps) ∧ a.assemble source = .ok program ∧
      program.symbols["done"]? = some 6 ∧
      ∃ i p e e' byte rest, ps[i]? = some p ∧ p.line.label = some "done" ∧
        a.emitted symbols ps i = .ok e ∧ a.emit symbols e p = .ok e' ∧
        e'.image = e.image.writeBytes 6 (byte :: rest) := by
  intro a source
  let lines : List Line :=
    [⟨1, none, some (.instruction "bra" none [.bare ⟨some "done", 0⟩])⟩,
      ⟨2, none, some (.instruction "nop" none [])⟩,
      ⟨3, some "done", some (.instruction "rts" none [])⟩]
  have hlines : parseLines source = .ok lines := by decide
  obtain ⟨⟨symbols, ps⟩, hplan, hemits⟩ := except_exists_of_any (x := a.plan ∅ 0 lines)
    (f := fun r => r.2.all fun p => p.line.label.isNone || p.line.emits) (by decide)
  obtain ⟨program, hprogram, hdone⟩ := except_exists_of_any (x := a.assemble source)
    (f := fun program => program.symbols["done"]? == some 6) (by decide)
  rw [beq_iff_eq] at hdone
  obtain ⟨-, -, hsymbols⟩ := passes_agree .a hlines hplan
  obtain ⟨i, p, hp, hlabel, haddr, hfirst⟩ := hsymbols program hprogram "done" 6 hdone
  have hemits : p.line.emits = true := by
    have hp' := List.all_eq_true.mp hemits p (List.mem_of_getElem? hp)
    rwa [hlabel] at hp'
  obtain ⟨e, e', byte, rest, he, he', -, himage⟩ :=
    hfirst 0 p hp hemits fun k _ hik hki => absurd hki (by omega)
  exact ⟨lines, symbols, ps, program, hlines, hplan, hprogram, hdone, i, p, e, e', byte, rest, hp,
    hlabel, he, he', himage⟩

end Assembler

end ColdFire
