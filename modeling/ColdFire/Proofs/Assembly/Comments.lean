import ColdFire.Assembly.Program
import ColdFire.Proofs.Assembly.StatementText
import ColdFire.Proofs.Instruction.Demand
import ColdFire.Proofs.Text.Cut
import Mathlib.Algebra.Ring.Parity

namespace ColdFire.Assembly

namespace Statement

variable {word operands cs : List Char}

theorem ofParts_eq_even : ofParts word operands = .ok .even ↔ word = ".even".toList := by
  constructor
  · intro h
    unfold ofParts at h
    split at h
    case h_2 heq => exact String.ofList_injective (heq.trans String.ofList_toList.symm)
    case h_9 =>
      split at h
      · cases h
      · obtain ⟨⟨mnemonic, size⟩, -, hrest⟩ := except_bind_eq_ok.1 h
        obtain ⟨ops, -, heven⟩ := except_bind_eq_ok.1 hrest
        cases heven
    all_goals
      obtain ⟨_, _, heven⟩ := except_map_eq_ok.1 h
      cases heven
  · rintro rfl
    rfl

theorem parse_append_of_even (h : parse cs = .ok (some .even)) (hquote : '\'' ∈ cs)
    (more : List Char) : parse (cs ++ more) = .ok (some .even) := by
  have hne : ¬ cs.isEmpty = true := fun hnil => by simp [List.isEmpty_iff.1 hnil] at hquote
  have hne' : ¬ (cs ++ more).isEmpty = true := by simp_all
  rw [parse, if_neg hne] at h
  rw [parse, if_neg hne']
  cases hcut : Text.cutAt? Text.isBlank cs with
  | none =>
    rw [hcut] at h
    obtain ⟨st, hst, heven⟩ := except_map_eq_ok.1 h
    cases heven
    have hlower : '\'' ∈ Text.lower cs := List.mem_map.2 ⟨'\'', hquote, rfl⟩
    exact absurd (ofParts_eq_even.1 hst ▸ hlower) (by decide)
  | some cut =>
    obtain ⟨word, operands⟩ := cut
    rw [hcut] at h
    obtain ⟨st, hst, heven⟩ := except_map_eq_ok.1 h
    cases heven
    obtain ⟨hword, c, hc, rfl⟩ := Text.of_cutAt? hcut
    rw [List.append_assoc, List.cons_append, Text.cutAt?_append hword hc]
    exact except_map_eq_ok.2 ⟨.even, ofParts_eq_even.2 (ofParts_eq_even.1 hst), rfl⟩

end Statement

namespace Line

variable {cs line remark : List Char} {n : Nat}

/-- The apostrophes in front of a comment come in pairs. -/
def QuotesClosed (line : List Char) : Prop := Even ((withoutComment false line).count '\'')

instance : DecidablePred QuotesClosed := fun _ => inferInstanceAs (Decidable (Even _))

/-- Either a comment starts in a text, or the text is kept and what follows it is quoted if it is
behind an odd number of apostrophes. -/
theorem withoutComment_append (quoted : Bool) (cs : List Char) :
    (∀ ds, withoutComment quoted (cs ++ ds) = withoutComment quoted cs) ∨
    withoutComment quoted cs = cs ∧ ∀ ds, withoutComment quoted (cs ++ ds) =
      cs ++ withoutComment (quoted ^^ decide (Odd (cs.count '\''))) ds := by
  -- character by character; `quoted` is what an apostrophe turns round
  induction cs generalizing quoted with
  | nil => exact .inr ⟨rfl, fun ds => by simp⟩
  | cons c cs ih =>
    simp only [List.cons_append, withoutComment, beq_iff_eq, Bool.and_eq_true, Bool.not_eq_true']
    by_cases hquote : c = '\''
    · have hturn : (!quoted ^^ decide (Odd (cs.count '\''))) =
          (quoted ^^ decide (Odd ((c :: cs).count '\''))) := by
        simp only [hquote, List.count_cons_self, Nat.odd_add_one, decide_not, Bool.not_xor,
          Bool.xor_not]
      rw [if_pos hquote, ← hturn]
      rcases ih (!quoted) with hcomment | ⟨hkept, happend⟩
      · exact .inl fun ds => by rw [if_pos hquote, hcomment]
      · exact .inr ⟨by rw [hkept], fun ds => by rw [if_pos hquote, happend]⟩
    · rw [if_neg hquote, List.count_cons_of_ne hquote]
      by_cases hmark : c = ';' ∧ quoted = false
      · exact .inl fun ds => by rw [if_neg hquote, if_pos hmark, if_pos hmark]
      · rw [if_neg hmark]
        rcases ih quoted with hcomment | ⟨hkept, happend⟩
        · exact .inl fun ds => by rw [if_neg hquote, if_neg hmark, hcomment]
        · exact .inr ⟨by rw [hkept], fun ds => by rw [if_neg hquote, if_neg hmark, happend]⟩

theorem parse_append_comment (h : QuotesClosed line) (text : List Char) :
    parse n (line ++ ';' :: text) = parse n line := by
  have hkept : withoutComment false (line ++ ';' :: text) = withoutComment false line := by
    rcases withoutComment_append false line with hcomment | ⟨hkept, happend⟩
    · exact hcomment _
    · rw [QuotesClosed, hkept] at h
      rw [happend, Bool.false_xor, decide_eq_false (Nat.not_odd_iff_even.2 h), hkept]
      exact List.append_nil line
  rw [parse, hkept, parse]

theorem splitLabel_append (hquote : '\'' ∈ cs) (ds : List Char) : ∃ label rest more,
    splitLabel cs = (label, rest) ∧ splitLabel (cs ++ ds) = (label, rest ++ more) ∧
      '\'' ∈ rest := by
  have hnot {head : List Char} (h : '\'' ∈ head) : Expression.isSymbol (Text.trim head) = false :=
    isSymbol_eq_false (Text.mem_trim h rfl) rfl rfl
  unfold splitLabel
  cases hcut : Text.cutAt? (· == ':') cs with
  | none =>
    refine ⟨none, cs, ds, rfl, ?_, hquote⟩
    rw [Text.cutAt?_append_left (Text.cutAt?_eq_none_iff.1 hcut)]
    cases Text.cutAt? (· == ':') ds with
    | none => rfl
    | some cut => exact if_neg (by simp [hnot (List.mem_append_left cut.1 hquote)])
  | some cut =>
    obtain ⟨head, tail⟩ := cut
    obtain ⟨hhead, c, hc, rfl⟩ := Text.of_cutAt? hcut
    rw [List.append_assoc, List.cons_append, Text.cutAt?_append hhead hc]
    dsimp only
    by_cases hsymbol : Expression.isSymbol (Text.trim head) = true
    · -- the apostrophe is behind the colon, since no label has one
      rw [if_pos hsymbol, if_pos hsymbol]
      have htail : '\'' ∈ Text.trim tail := by
        rcases List.mem_append.1 hquote with hmem | hmem
        · rw [hnot hmem] at hsymbol
          cases hsymbol
        · rcases List.mem_cons.1 hmem with rfl | hmem
          · cases hc
          · exact Text.mem_trim hmem rfl
      obtain ⟨more, hmore⟩ := Text.exists_trim_append (List.ne_nil_of_mem htail) ds
      exact ⟨_, _, more, rfl, by rw [hmore], htail⟩
    · rw [if_neg hsymbol, if_neg hsymbol]
      exact ⟨none, _, ds, rfl, by simp, hquote⟩

/-- The line holds an `.even`, which has no operands: what stands behind it is not read. -/
def IsEven (line : List Char) : Prop :=
  ∃ n label, parse n line = .ok ⟨n, label, some .even⟩

theorem parse_append_of_even (h : IsEven line) (text : List Char) :
    parse n (line ++ ';' :: text) = parse n line := by
  by_cases hclosed : QuotesClosed line
  · exact parse_append_comment hclosed text
  rcases withoutComment_append false line with hcomment | ⟨hkept, happend⟩
  · rw [parse, hcomment, parse]
  · rw [QuotesClosed, hkept, Nat.not_even_iff_odd] at hclosed
    have hcount : line.count '\'' ≠ 0 := fun hzero => by simp [hzero] at hclosed
    have hquote : '\'' ∈ Text.trim line :=
      Text.mem_trim (List.count_pos_iff.1 (Nat.pos_of_ne_zero hcount)) rfl
    obtain ⟨behind, htrim⟩ := Text.exists_trim_append (List.ne_nil_of_mem hquote)
      (withoutComment (false ^^ decide (Odd (line.count '\''))) (';' :: text))
    obtain ⟨label, rest, more, hsplit, hsplit', hrest⟩ := splitLabel_append hquote behind
    obtain ⟨k, label', heven⟩ := h
    unfold parse at heven ⊢
    rw [hkept, hsplit] at heven
    obtain ⟨statement, hstatement, hline⟩ := except_map_eq_ok.1 heven
    cases hline
    rw [happend, htrim, hsplit', hkept, hsplit]
    dsimp only
    rw [hstatement, Statement.parse_append_of_even hstatement hrest]

theorem parse_append_return (line : List Char) : parse n (line ++ ['\r']) = parse n line := by
  have htrim : Text.trim (withoutComment false (line ++ ['\r'])) =
      Text.trim (withoutComment false line) := by
    rcases withoutComment_append false line with hcomment | ⟨hkept, happend⟩
    · rw [hcomment]
    · rw [happend, hkept]
      exact Text.trim_append (List.forall_mem_singleton.2 rfl)
  rw [parse, htrim, parse]

theorem parse_withoutReturn (line : List Char) :
    parse n (Text.withoutReturn line) = parse n line := by
  rcases Text.withoutReturn_cases line with hline | hline
  · rw [hline]
  · exact (parse_append_return _).symm.trans (congrArg (parse n) hline.symm)

/-- A comment may stand behind the line: the apostrophes of the line come in pairs, or what stands
behind its first word is not read. -/
def Commentable (line : List Char) : Prop := QuotesClosed line ∨ IsEven line

/-- What may be put behind a line: nothing or, if the line is one of some kind, a comment. -/
inductive Remark (P : List Char → Prop) (line : List Char) : List Char → Prop where
  | none : Remark P line []
  | comment {text : List Char} (hline : P line) (htext : '\n' ∉ text) : Remark P line (';' :: text)

variable {P : List Char → Prop}

theorem Remark.newline_notMem (h : Remark P line remark) (hline : '\n' ∉ line) :
    '\n' ∉ line ++ remark := by
  cases h with
  | none => rwa [List.append_nil]
  | comment _ htext => simp [hline, htext]

theorem Remark.parse_append (h : Remark Commentable line remark) :
    parse n (line ++ remark) = parse n line := by
  cases h with
  | none => rw [List.append_nil]
  | comment hends _ =>
    rcases hends with hclosed | heven
    · exact parse_append_comment hclosed _
    · exact parse_append_of_even heven _

end Line

/-- A text with remarks behind some of its lines, those of some kind. Each remark stands in front of
what ends its line. -/
inductive Remarked (P : List Char → Prop) : List Char → List Char → Prop where
  | nil : Remarked P [] []
  | last {line remark : List Char} (hline : '\n' ∉ line) (hne : line ≠ [])
      (hremark : Line.Remark P line remark) : Remarked P line (line ++ remark)
  | newline {line remark ending rest rest' : List Char} (hline : '\n' ∉ line)
      (hremark : Line.Remark P line remark) (hending : ending = [] ∨ ending = ['\r'])
      (hrest : Remarked P rest rest') :
      Remarked P (line ++ ending ++ '\n' :: rest) (line ++ remark ++ ending ++ '\n' :: rest')

end Assembly

namespace Assembler

open Assembly

def linesFrom (k : Nat) (cs : List Char) : Except AssemblyError (List Line) :=
  ((Text.lines cs).zipIdx k).mapM fun (text, number) =>
    (Line.parse number text).mapError (.badSyntax number)

theorem linesFrom_newline {line rest : List Char} {k : Nat} (hline : '\n' ∉ line) :
    linesFrom k (line ++ '\n' :: rest) = (do
      let first ← (Line.parse k line).mapError (.badSyntax k)
      return first :: (← linesFrom (k + 1) rest)) := by
  rw [linesFrom, Text.lines_newline hline, List.zipIdx_cons, List.mapM_cons]
  dsimp only
  rw [Line.parse_withoutReturn]
  rfl

theorem linesFrom_remarked {cs cs' : List Char} (h : Remarked Line.Commentable cs cs') (k : Nat) :
    linesFrom k cs' = linesFrom k cs := by
  induction h generalizing k with
  | nil => rfl
  | last hline hne hremark =>
    rw [linesFrom, linesFrom, Text.lines_of_line hline hne,
      Text.lines_of_line (hremark.newline_notMem hline) (List.append_ne_nil_of_left_ne_nil hne _)]
    simp only [List.zipIdx_singleton, List.mapM_cons, hremark.parse_append]
  | newline hline hremark hending hrest ih =>
    have hremarked := hremark.newline_notMem hline
    rcases hending with rfl | rfl
    · rw [List.append_nil, List.append_nil, linesFrom_newline hremarked, linesFrom_newline hline,
        hremark.parse_append, ih]
    · rw [linesFrom_newline (by simpa using hremarked), linesFrom_newline (by simpa using hline),
        Line.parse_append_return, Line.parse_append_return, hremark.parse_append, ih]

/-- Remarks behind lines change nothing that is assembled, unless an apostrophe is left open in
front of them. -/
theorem assemble_remarked (a : Assembler) {source source' : String}
    (h : Remarked Line.Commentable source.toList source'.toList) :
    a.assemble source' = a.assemble source := by
  have hlines : parseLines source' = parseLines source := linesFrom_remarked h 1
  rw [assemble, hlines, assemble]

theorem assemble_remarked_return :
    let a : Assembler := ⟨.full, .a⟩
    Remarked Line.Commentable "start: move.b #'A',d0\r\n rts".toList
        "start: move.b #'A',d0; it's\r\n rts;".toList ∧
      a.assemble "start: move.b #'A',d0; it's\r\n rts;" =
        a.assemble "start: move.b #'A',d0\r\n rts" := by
  intro a
  have hfirst : Line.Remark Line.Commentable "start: move.b #'A',d0".toList "; it's".toList :=
    .comment (.inl (by decide)) (by decide)
  have hlast : Line.Remark Line.Commentable " rts".toList ";".toList :=
    .comment (.inl (by decide)) (by decide)
  have hremarked : Remarked Line.Commentable "start: move.b #'A',d0\r\n rts".toList
      "start: move.b #'A',d0; it's\r\n rts;".toList :=
    .newline (by decide) hfirst (.inr rfl) (.last (by decide) (by decide) hlast)
  exact ⟨hremarked, assemble_remarked a hremarked⟩

/-- The literal of the apostrophe has three of them: what is put behind it counts as quoted. -/
theorem not_assemble_remarked_apostrophe :
    let a : Assembler := ⟨.full, .a⟩
    Remarked (fun _ => True) ".byte '''\n".toList ".byte ''';x\n".toList ∧
      (∃ program, a.assemble ".byte '''\n" = .ok program) ∧
      a.assemble ".byte ''';x\n" = .error (.badSyntax 1 (.badTerm "''';x".toList)) := by
  intro a
  have hremark : Line.Remark (fun _ => True) ".byte '''".toList ";x".toList :=
    .comment trivial (by decide)
  exact ⟨.newline (by decide) hremark (.inl rfl) .nil, ⟨_, rfl⟩, rfl⟩

end Assembler

end ColdFire
