import Mathlib.Tactic.Lemma
import PonyEditor.Proofs.TokenSlices

/-!
# Indents and the nearest line

The indent of a new line is taken from one line above it, the nearest that has a token other than
blanks and comments.  In a text within the limit, what is taken from that line depends on its text
and on the mode it begins in, and not on where in the document it lies (`View.indentAfter?_eq`).  So
the indent is a function of the lines above, each with its mode (`Document.indent_eq_below`).  Of
these, lines of blanks and comments can be left out (`Indent.below_append_of_trivial`), and only the
last of the others counts (`Indent.below_of_nearest`).
-/

namespace PonyEditor

/-! ## The indent after a line -/

namespace Indent

/-- The kinds of a line that mean something to the grammar. -/
def kinds (ls : List Lexeme) : List Kind := (ls.map Lexeme.kind).filter fun kind => !kind.isTrivia

/-- The bytes of a line before its first lexeme that means something to the grammar. -/
def own (ls : List Lexeme) : Nat := Lexeme.totalWidth (ls.takeWhile fun l => l.kind.isTrivia)

/-- The indent after a line of these lexemes, wherever the line is. -/
def after? (ls : List Lexeme) (unit : Nat) : Option Nat :=
  match kinds ls with
  | [] => none
  | first :: rest => some (moved (own ls) (delta (first :: rest)) unit)

lemma kinds_eq_nil_iff {ls : List Lexeme} : kinds ls = [] ↔ ∀ l ∈ ls, l.kind.isTrivia = true := by
  simp [kinds, List.filter_eq_nil_iff]

lemma after?_eq_none_iff {ls : List Lexeme} {unit : Nat} :
    after? ls unit = none ↔ ∀ l ∈ ls, l.kind.isTrivia = true := by
  rw [← kinds_eq_nil_iff, after?]
  split <;> simp_all

end Indent

namespace Token

lemma map_kind_ofLexemes (start : Nat) (ls : List Lexeme) :
    (ofLexemes start ls).map kind = ls.map Lexeme.kind := by
  induction ls generalizing start with
  | nil => rfl
  | cons l ls ih => exact congrArg (l.kind :: ·) (ih _)

/-- The first significant token begins after the trivia in front of it. -/
lemma start_of_filter_ofLexemes {start : Nat} {ls : List Lexeme} {first : Token} {rest : List Token}
    (hlimit : start + Lexeme.totalWidth ls ≤ Offset.limit)
    (h : ((ofLexemes start ls).filter fun t => !t.kind.isTrivia) = first :: rest) :
    first.span.start = start + Indent.own ls := by
  induction ls generalizing start with
  | nil => cases h
  | cons l ls ih =>
      rw [Lexeme.totalWidth, ← Nat.add_assoc] at hlimit
      rw [ofLexemes_cons_of_le (by omega)] at h
      rw [Indent.own]
      by_cases htrivia : l.kind.isTrivia = true
      · rw [List.filter_cons_of_neg (by simp [htrivia])] at h
        rw [List.takeWhile_cons, if_pos htrivia, Lexeme.totalWidth, ih hlimit h, Indent.own,
          Nat.add_assoc]
      · rw [List.filter_cons_of_pos (by simp [htrivia])] at h
        rw [List.takeWhile_cons, if_neg htrivia, ← (List.cons.inj h).1]
        rfl

end Token

namespace View

variable {σ : Type} [Lined σ] {v : View σ}

/-- A line of blanks and comments. -/
def IsTrivial (v : View σ) (line : Nat) : Prop := ∀ t ∈ v.tokensOf line, t.kind.isTrivia = true

instance (v : View σ) (line : Nat) : Decidable (v.IsTrivial line) :=
  inferInstanceAs (Decidable (∀ t ∈ v.tokensOf line, t.kind.isTrivia = true))

/-- The last line above `line` that has a token other than blanks and comments. -/
structure IsNearest (v : View σ) (line near : Nat) : Prop where
  above : near < line
  significant : ¬ v.IsTrivial near
  last : ∀ j, near < j → j < line → v.IsTrivial j

lemma map_kind_significant (hv : Lined.Exact v.source) {i : Nat}
    (hi : i < (Lined.lines v.source).length) :
    (v.significant i).map Token.kind =
      Indent.kinds ((v.mode i).lexemes (Lined.lines v.source)[i]) := by
  rw [Indent.kinds, ← Token.map_kind_ofLexemes (Text.lineStart (Lined.lines v.source) i),
    ← tokensOf_of_lt hv hi, List.filter_map]
  rfl

/-- **The indent after a line comes from its text and its mode**, wherever the line is. -/
lemma indentAfter?_eq (hv : Lined.Exact v.source)
    (hlimit : Text.width (Text.unlines (Lined.lines v.source)).toList ≤ Offset.limit) {i : Nat}
    (hi : i < (Lined.lines v.source).length) (unit : Nat) :
    v.indentAfter? i unit = Indent.after? ((v.mode i).lexemes (Lined.lines v.source)[i]) unit := by
  rw [indentAfter?, start?_eq hv hlimit hi, Indent.after?, ← map_kind_significant hv hi]
  cases hsignificant : v.significant i with
  | nil => rfl
  | cons first rest =>
      have hwidth := Nat.le_trans (Text.bytesBefore_add_le hi) hlimit
      rw [← Mode.totalWidth_lexemes (v.mode i)] at hwidth
      have hstart := hsignificant
      rw [significant, tokensOf_eq hv hlimit hi] at hstart
      have hfirst := Token.start_of_filter_ofLexemes hwidth hstart
      simp only [Option.bind_eq_bind, Option.bind_some, Option.pure_def, List.map_cons, hfirst,
        Nat.add_sub_cancel_left]

lemma isTrivial_iff (hv : Lined.Exact v.source) {i : Nat}
    (hi : i < (Lined.lines v.source).length) :
    v.IsTrivial i ↔ ∀ l ∈ (v.mode i).lexemes (Lined.lines v.source)[i], l.kind.isTrivia = true := by
  rw [IsTrivial, tokensOf_of_lt hv hi]
  rw [← List.forall_mem_map (f := Token.kind) (P := fun kind => kind.isTrivia = true),
    Token.map_kind_ofLexemes, List.forall_mem_map]

lemma IsNearest.lt_lineCount {line near : Nat} (h : v.IsNearest line near) :
    near < v.lineCount := by
  have hsome := h.significant
  simp only [IsTrivial, not_forall] at hsome
  obtain ⟨t, ht, -⟩ := hsome
  exact lt_lineCount_of_mem_tokensOf ht

/-- Above a place there is a nearest line, or all lines are of blanks and comments. -/
lemma exists_isNearest_or (v : View σ) (line : Nat) :
    (∃ near, v.IsNearest line near) ∨ ∀ j, j < line → v.IsTrivial j := by
  induction line with
  | zero => exact .inr fun j hj => absurd hj (Nat.not_lt_zero j)
  | succ line ih =>
      by_cases hline : v.IsTrivial line
      · have hupto {j : Nat} (hj : j < line + 1) (hbelow : j < line → v.IsTrivial j) :
            v.IsTrivial j := by
          rcases Nat.lt_or_eq_of_le (Nat.le_of_lt_succ hj) with hlt | rfl
          · exact hbelow hlt
          · exact hline
        rcases ih with ⟨near, habove, hsome, hlast⟩ | hall
        · exact .inl ⟨near, Nat.lt_succ_of_lt habove, hsome,
            fun j hnear hj => hupto hj (hlast j hnear)⟩
        · exact .inr fun j hj => hupto hj (hall j)
      · exact .inl ⟨line, Nat.lt_succ_self line, hline, fun j hnear hj => by omega⟩

end View

/-! ## Lines with their modes -/

namespace Mode

/-- The lines, each with the mode it begins in, if the first begins in `mode`. -/
def passes (mode : Mode) : List String → List (Mode × String)
  | [] => []
  | line :: lines => (mode, line) :: (mode.exit line).passes lines

lemma passes_append (mode : Mode) (xs ys : List String) :
    mode.passes (xs ++ ys) = mode.passes xs ++ (xs.foldl exit mode).passes ys := by
  induction xs generalizing mode with
  | nil => rfl
  | cons x xs ih => exact congrArg ((mode, x) :: ·) (ih (mode.exit x))

lemma getElem?_passes (mode : Mode) (lines : List String) (i : Nat) :
    (mode.passes lines)[i]? =
      lines[i]?.map fun line => ((lines.take i).foldl exit mode, line) := by
  induction lines generalizing mode i with
  | nil => rfl
  | cons line lines ih =>
      cases i with
      | zero => rfl
      | succ i => exact ih (mode.exit line) i

end Mode

namespace Indent

/-- The indent below some lines, each with the mode it begins in. -/
def below (lines : List (Mode × String)) (unit : Nat) : Nat :=
  (lines.reverse.findSome? fun entry => after? (entry.1.lexemes entry.2) unit).getD 0

/-- Blanks and comments only, in the mode that the line begins in. -/
def Trivial (entry : Mode × String) : Prop :=
  ∀ l ∈ entry.1.lexemes entry.2, l.kind.isTrivia = true

variable {xs ys zs : List (Mode × String)}

lemma findSome?_reverse_of_trivial (h : ∀ entry ∈ ys, Trivial entry) (unit : Nat) :
    (ys.reverse.findSome? fun entry => after? (entry.1.lexemes entry.2) unit) = none := by
  rw [List.findSome?_eq_none_iff]
  intro entry hentry
  exact after?_eq_none_iff.mpr (h entry (List.mem_reverse.mp hentry))

/-- Lines of blanks and comments can be left out. -/
lemma below_append_of_trivial (h : ∀ entry ∈ ys, Trivial entry) (unit : Nat) :
    below (xs ++ ys ++ zs) unit = below (xs ++ zs) unit := by
  simp only [below, List.reverse_append, List.findSome?_append,
    findSome?_reverse_of_trivial h, Option.none_or]

/-- Above the last line that has other tokens nothing counts. -/
lemma below_of_nearest {entry : Mode × String} (hentry : ¬ Trivial entry)
    (h : ∀ entry ∈ ys, Trivial entry) (unit : Nat) :
    below (xs ++ entry :: ys) unit = below [entry] unit := by
  cases hafter : after? (entry.1.lexemes entry.2) unit with
  | none => exact absurd (after?_eq_none_iff.mp hafter) hentry
  | some indent =>
      simp only [below, List.reverse_append, List.reverse_cons, List.reverse_nil, List.nil_append,
        List.findSome?_append, findSome?_reverse_of_trivial h, Option.none_or,
        List.findSome?_singleton, hafter, Option.some_or]

lemma below_of_trivial (h : ∀ entry ∈ ys, Trivial entry) (unit : Nat) : below ys unit = 0 := by
  rw [below, findSome?_reverse_of_trivial h, Option.getD_none]

end Indent

namespace Document

variable {d : Document}

/-- **The indent is a function of the lines above**, each with its mode. -/
lemma InStep.indent_eq_below (hd : d.InStep) (hlimit : d.text.utf8ByteSize < Offset.limit)
    (line unit : Nat) :
    d.view.indent line unit =
      Indent.below (Mode.passes .normal (d.buffer.lines.take line)) unit := by
  have hwidth : Text.width (Text.unlines (Lined.lines d.view.source)).toList ≤ Offset.limit := by
    rw [Text.utf8ByteSize_eq] at hlimit
    exact Nat.le_of_lt hlimit
  have hupto : ∀ m, m ≤ d.buffer.lines.length →
      ((List.range m).reverse.findSome? fun above => d.view.indentAfter? above unit) =
        (Mode.passes .normal (d.buffer.lines.take m)).reverse.findSome? fun entry =>
          Indent.after? (entry.1.lexemes entry.2) unit := by
    intro m hm
    induction m with
    | zero => rfl
    | succ m ih =>
        have hafter : d.view.indentAfter? m unit = Indent.after?
            (((d.buffer.lines.take m).foldl Mode.exit .normal).lexemes d.buffer.lines[m]) unit := by
          rw [← hd.mode_eq (Nat.le_of_succ_le hm)]
          exact View.indentAfter?_eq hd.exact hwidth hm unit
        rw [List.range_succ, List.reverse_append, List.take_succ_eq_append_getElem hm,
          Mode.passes_append, List.reverse_append, List.findSome?_append, List.findSome?_append,
          ih (Nat.le_of_succ_le hm)]
        simp only [Mode.passes, List.reverse_singleton, List.findSome?_singleton, hafter]
  have htake : d.buffer.lines.take line = d.buffer.lines.take (min line d.buffer.lines.length) := by
    rw [← List.take_take, List.take_length]
  rw [View.indent, Indent.below, htake]
  exact congrArg (Option.getD · 0) (hupto _ (Nat.min_le_right _ _))

/-! ## Nearest lines -/

lemma InStep.isTrivial_iff (hd : d.InStep) {i : Nat} {line : String}
    (hline : d.buffer.lines[i]? = some line) :
    d.view.IsTrivial i ↔
      Indent.Trivial ((d.buffer.lines.take i).foldl Mode.exit .normal, line) := by
  obtain ⟨hi, rfl⟩ := List.getElem?_eq_some_iff.mp hline
  rw [← hd.mode_eq (Nat.le_of_lt hi)]
  exact View.isTrivial_iff hd.exact hi

/-- Lines of blanks and comments are so when they are scanned one after the other. -/
lemma InStep.trivial_of_isTrivial (hd : d.InStep) (first last : Nat)
    (h : ∀ j, first ≤ j → j < last → d.view.IsTrivial j) :
    ∀ entry ∈ Mode.passes ((d.buffer.lines.take first).foldl Mode.exit .normal)
      ((d.buffer.lines.take last).drop first), Indent.Trivial entry := by
  intro entry hentry
  obtain ⟨k, hk⟩ := List.mem_iff_getElem?.mp hentry
  rw [Mode.getElem?_passes, List.getElem?_drop, List.getElem?_take] at hk
  split at hk
  · rename_i hlast
    obtain ⟨line, hline, rfl⟩ := Option.map_eq_some_iff.mp hk
    have htake : d.buffer.lines.take first ++ ((d.buffer.lines.take last).drop first).take k =
        d.buffer.lines.take (first + k) := by
      rw [List.drop_take, List.take_take, Nat.min_eq_left (by omega), ← List.take_add]
    rw [← List.foldl_append, htake]
    exact (hd.isTrivial_iff hline).mp (h _ (Nat.le_add_right first k) hlast)
  · cases hk

/-- **The nearest line decides**, by its text and its mode. -/
lemma InStep.indent_of_isNearest (hd : d.InStep) (hlimit : d.text.utf8ByteSize < Offset.limit)
    {line near : Nat} (h : d.view.IsNearest line near) {text : String}
    (htext : d.buffer.lines[near]? = some text) (unit : Nat) :
    d.view.indent line unit = Indent.below [(d.view.mode near, text)] unit := by
  have hrest := hd.trivial_of_isTrivial (near + 1) line h.last
  have hsome := mt (hd.isTrivial_iff htext).mpr h.significant
  obtain ⟨hnear, rfl⟩ := List.getElem?_eq_some_iff.mp htext
  have hsplit : d.buffer.lines.take line =
      d.buffer.lines.take near ++
        d.buffer.lines[near] :: (d.buffer.lines.take line).drop (near + 1) := by
    have hbefore : (d.buffer.lines.take line).take near = d.buffer.lines.take near := by
      rw [List.take_take, Nat.min_eq_left (Nat.le_of_lt h.above)]
    conv => lhs; rw [← List.take_append_drop near (d.buffer.lines.take line), hbefore]
    have hlt : near < (d.buffer.lines.take line).length := by
      rw [List.length_take]
      exact Nat.lt_min.mpr ⟨h.above, hnear⟩
    rw [List.drop_eq_getElem_cons hlt, List.getElem_take]
  rw [List.take_succ_eq_append_getElem hnear, List.foldl_append] at hrest
  rw [hd.indent_eq_below hlimit, hsplit, Mode.passes_append, Mode.passes,
    hd.mode_eq (Nat.le_of_lt hnear)]
  exact Indent.below_of_nearest hsome hrest unit

lemma InStep.indent_of_isTrivial (hd : d.InStep) (hlimit : d.text.utf8ByteSize < Offset.limit)
    {line : Nat} (h : ∀ j, j < line → d.view.IsTrivial j) (unit : Nat) :
    d.view.indent line unit = 0 := by
  rw [hd.indent_eq_below hlimit]
  exact Indent.below_of_trivial (hd.trivial_of_isTrivial 0 line fun j _ => h j) unit

lemma InStep.indent_eq_of_nearest {d' : Document} (hd : d.InStep) (hd' : d'.InStep)
    (hlimit : d.text.utf8ByteSize < Offset.limit) (hlimit' : d'.text.utf8ByteSize < Offset.limit)
    {line line' : Nat}
    (h : (∃ near near', d.view.IsNearest line near ∧ d'.view.IsNearest line' near' ∧
        d.view.line? near = d'.view.line? near' ∧ d.view.mode near = d'.view.mode near') ∨
      ((∀ near, ¬ d.view.IsNearest line near) ∧ ∀ near, ¬ d'.view.IsNearest line' near))
    (unit : Nat) : d.view.indent line unit = d'.view.indent line' unit := by
  rcases h with ⟨near, near', hnear, hnear', htext, hmode⟩ | ⟨hnone, hnone'⟩
  · have hlt : near < d.buffer.lines.length := hnear.lt_lineCount
    have hline : d.buffer.lines[near]? = some d.buffer.lines[near] := List.getElem?_eq_getElem hlt
    have hline' : d'.buffer.lines[near']? = some d.buffer.lines[near] := htext.symm.trans hline
    rw [hd.indent_of_isNearest hlimit hnear hline, hd'.indent_of_isNearest hlimit' hnear' hline',
      hmode]
  · rw [hd.indent_of_isTrivial hlimit ((d.view.exists_isNearest_or line).resolve_left
        (not_exists.mpr hnone)),
      hd'.indent_of_isTrivial hlimit' ((d'.view.exists_isNearest_or line').resolve_left
        (not_exists.mpr hnone'))]

/-! ## Edits below a place, and lines put in above it -/

/-- The call changes no line above `line`. -/
def Call.EditsFrom (line : Nat) : Call → Prop
  | .replace c => line ≤ c.start
  | .apply cs => ∀ c ∈ cs, line ≤ c.start
  | .reload _ => False
  | .setReport _ => True
  | .withPath _ => True

lemma take_splice_of_le {c : Change} {lines : List String} (hvalid : c.Valid lines.length)
    {line : Nat} (h : line ≤ c.start) : (c.splice lines).take line = lines.take line := by
  have htake := congrArg (List.take line) (Change.take_splice hvalid.fits)
  rwa [List.take_take, List.take_take, Nat.min_eq_left h] at htake

lemma take_foldl_splice {cs : List Change} {lines : List String}
    (hvalid : Change.ValidAll cs lines.length) {line : Nat} (h : ∀ c ∈ cs, line ≤ c.start) :
    (cs.foldl (fun lines c => c.splice lines) lines).take line = lines.take line := by
  induction cs generalizing lines with
  | nil => rfl
  | cons c cs ih =>
      obtain ⟨hc, hcs⟩ := hvalid
      obtain ⟨hfirst, hrest⟩ := List.forall_mem_cons.mp h
      have hlength : (c.splice lines).length = c.edit.countAfter lines.length :=
        Change.length_splice hc.fits
      exact (ih (by rwa [hlength]) hrest).trans (take_splice_of_le hc hfirst)

/-- **A call that edits from a line on keeps the lines above it**, accepted or refused. -/
lemma Call.EditsFrom.take_onLines {line : Nat} {call : Call} (h : call.EditsFrom line)
    (lines : List String) : (call.onLines lines).take line = lines.take line := by
  cases call with
  | replace c =>
      rw [onLines]
      split
      · rename_i hvalid
        exact take_splice_of_le hvalid h
      · rfl
  | apply cs =>
      rw [onLines]
      split
      · rename_i hvalid
        exact take_foldl_splice hvalid h
      · rfl
  | reload text => exact h.elim
  | setReport report => rfl
  | withPath path => rfl

lemma take_foldl_onLines {line : Nat} {calls : List Call}
    (h : ∀ call ∈ calls, call.EditsFrom line) (lines : List String) :
    (calls.foldl Call.onLines lines).take line = lines.take line := by
  induction calls generalizing lines with
  | nil => rfl
  | cons call calls ih =>
      obtain ⟨hcall, hcalls⟩ := List.forall_mem_cons.mp h
      exact (ih hcalls _).trans (hcall.take_onLines lines)

/-- **Lines of blanks and comments that leave the mode as it was can be put in anywhere above.** -/
lemma InStep.indent_of_insert {d' : Document} (hd : d.InStep) (hd' : d'.InStep)
    (hlimit : d.text.utf8ByteSize < Offset.limit) (hlimit' : d'.text.utf8ByteSize < Offset.limit)
    {place : Nat} {new : List String} (hplace : place ≤ d.buffer.lines.length)
    (hlines : d'.buffer.lines = (Change.mk place place new).splice d.buffer.lines)
    (htrivial : ∀ j, place ≤ j → j < place + new.length → d'.view.IsTrivial j)
    (hmode : d'.view.mode (place + new.length) = d'.view.mode place) {line : Nat}
    (hline : place ≤ line) (unit : Nat) :
    d'.view.indent (line + new.length) unit = d.view.indent line unit := by
  have hlength : (d.buffer.lines.take place).length = place := List.length_take_of_le hplace
  -- the new document is what was above, the new lines, and what was below
  have habove : d'.buffer.lines.take place = d.buffer.lines.take place := by
    rw [hlines, Change.splice, List.append_assoc, List.take_left' hlength]
  have hnew : d'.buffer.lines.take (place + new.length) = d.buffer.lines.take place ++ new := by
    rw [hlines, Change.splice, List.take_left' (by rw [List.length_append, hlength])]
  have hbelow : d'.buffer.lines.take (line + new.length) =
      d.buffer.lines.take place ++ new ++ (d.buffer.lines.drop place).take (line - place) := by
    rw [hlines, Change.splice, List.take_append, List.take_of_length_le (by simp; omega)]
    congr 2
    simp only [List.length_append, hlength]
    omega
  have hold : d.buffer.lines.take line =
      d.buffer.lines.take place ++ (d.buffer.lines.drop place).take (line - place) := by
    rw [← List.take_add, Nat.add_sub_cancel' hline]
  have hle : place + new.length ≤ d'.buffer.lines.length := by
    have hcount := congrArg List.length hnew
    rw [List.length_take, List.length_append, hlength] at hcount
    omega
  -- so the lines below begin in the mode they began in
  have hexit : new.foldl Mode.exit ((d.buffer.lines.take place).foldl Mode.exit .normal) =
      (d.buffer.lines.take place).foldl Mode.exit .normal := by
    rw [hd'.mode_eq hle, hd'.mode_eq (by omega), habove, hnew, List.foldl_append] at hmode
    exact hmode
  have htrivia := hd'.trivial_of_isTrivial place (place + new.length) htrivial
  rw [habove, hnew, List.drop_left' hlength] at htrivia
  rw [hd'.indent_eq_below hlimit', hd.indent_eq_below hlimit, hbelow, hold, Mode.passes_append,
    Mode.passes_append, Mode.passes_append, List.foldl_append, hexit]
  exact Indent.below_append_of_trivial htrivia unit

/-- **The indent depends only on the nearest line above.**  Take two documents after any runs, with
texts within the limit, and a place in each, past the end or not.  If the nearest lines above that
have tokens other than blanks and comments have the same text and begin in the same mode, or if
there is no such line in either, the indents are the same.  So edits from a place on do not change
the indent there, and neither do lines of blanks and comments that are put in above and leave the
mode as they find it. -/
theorem indent_depends_only_on_nearest (text : String) (calls : List Call)
    (hlimit : ((ofText text).run calls).text.utf8ByteSize < Offset.limit) :
    let d := (ofText text).run calls
    (∀ text' calls', ((ofText text').run calls').text.utf8ByteSize < Offset.limit →
      let d' := (ofText text').run calls'
      ∀ line line',
        ((∃ near near', d.view.IsNearest line near ∧ d'.view.IsNearest line' near' ∧
            d.view.line? near = d'.view.line? near' ∧ d.view.mode near = d'.view.mode near') ∨
          ((∀ near, ¬ d.view.IsNearest line near) ∧ ∀ near, ¬ d'.view.IsNearest line' near)) →
        ∀ unit, d.view.indent line unit = d'.view.indent line' unit) ∧
    (∀ later line, (∀ call ∈ later, Call.EditsFrom line call) →
      (d.run later).text.utf8ByteSize < Offset.limit →
      ∀ unit, (d.run later).view.indent line unit = d.view.indent line unit) ∧
    (∀ place new d' notice, d.replace ⟨place, place, new⟩ = .ok (d', notice) →
      d'.text.utf8ByteSize < Offset.limit →
      (∀ j, place ≤ j → j < place + new.length → d'.view.IsTrivial j) →
      d'.view.mode (place + new.length) = d'.view.mode place →
      ∀ line, place ≤ line →
        ∀ unit, d'.view.indent (line + new.length) unit = d.view.indent line unit) := by
  intro d
  have hd : d.InStep := (run_spec (inStep_ofText text) calls).1
  refine ⟨?_, ?_, ?_⟩
  · intro text' calls' hlimit' d' line line' hnearest unit
    have hd' : d'.InStep := (run_spec (inStep_ofText text') calls').1
    exact hd.indent_eq_of_nearest hd' hlimit hlimit' hnearest unit
  · intro later line hlater hlimit' unit
    obtain ⟨hd', hlines⟩ := run_spec hd later
    rw [hd'.indent_eq_below hlimit', hd.indent_eq_below hlimit, hlines, take_foldl_onLines hlater]
  · intro place new d' notice hreplace hlimit' htrivial hmode line hline unit
    have hvalid : (Change.mk place place new).Valid d.buffer.lines.length :=
      (replace_ok_iff hd).mp ⟨_, hreplace⟩
    obtain ⟨hd', hlines⟩ := call_spec hd (.replace ⟨place, place, new⟩)
    have hcall : d.call (.replace ⟨place, place, new⟩) = d' := by simp only [call, hreplace]
    rw [hcall] at hd' hlines
    rw [Call.onLines, if_pos hvalid] at hlines
    exact hd.indent_of_insert hd' hlimit hlimit' hvalid.2.2.1 hlines htrivial hmode hline unit

/-- The nearest line begins in a comment that it closes.  In the other document it is the last, and
the place is past the end.  The lines put in open a comment and close it again, both inside the
comment. -/
theorem indent_depends_only_on_nearest_behind_comment :
    let d := (ofText "/*\n */ if a\n// end").run []
    let d' := (ofText "class C\n/* é\n */ if a").run []
    d.text.utf8ByteSize < Offset.limit ∧ d'.text.utf8ByteSize < Offset.limit ∧
    d.view.IsNearest 3 1 ∧ d'.view.IsNearest 4 2 ∧ d.view.mode 1 = .ofDepth 1 ∧
    d.view.indent 3 4 = 8 ∧ d.view.indent 3 4 = d'.view.indent 4 4 ∧
    (d.run [.replace ⟨3, 3, ["end"]⟩]).view.indent 3 4 = d.view.indent 3 4 ∧
    ∃ e notice, d.replace ⟨1, 1, ["end /*", "*/"]⟩ = .ok (e, notice) ∧
      e.view.indent 5 4 = d.view.indent 3 4 := by
  intro d d'
  have hd : d.InStep := inStep_ofText _
  have hlimit : d.text.utf8ByteSize < Offset.limit := by decide +kernel
  have hlimit' : d'.text.utf8ByteSize < Offset.limit := by decide +kernel
  have hnear : d.view.IsNearest 3 1 := by
    refine ⟨by decide, by decide +kernel, fun j habove hbelow => ?_⟩
    obtain rfl : j = 2 := by omega
    decide +kernel
  have hnear' : d'.view.IsNearest 4 2 := by
    refine ⟨by decide, by decide +kernel, fun j habove hbelow => ?_⟩
    obtain rfl : j = 3 := by omega
    decide +kernel
  have hreplace := replace_of_valid (c := ⟨1, 1, ["end /*", "*/"]⟩) hd (by decide +kernel)
  obtain ⟨hsame, hedit, hinsert⟩ :=
    indent_depends_only_on_nearest "/*\n */ if a\n// end" [] hlimit
  refine ⟨hlimit, hlimit', hnear, hnear', by decide +kernel, by decide +kernel, ?_, ?_, _, _,
    hreplace, ?_⟩
  · exact hsame _ _ hlimit' 3 4
      (.inl ⟨1, 2, hnear, hnear', by decide +kernel, by decide +kernel⟩) 4
  · refine hedit [.replace ⟨3, 3, ["end"]⟩] 3 ?_ (by decide +kernel) 4
    intro call hcall
    obtain rfl := List.mem_singleton.mp hcall
    exact Nat.le_refl 3
  · refine hinsert 1 _ _ _ hreplace (by decide +kernel) ?_ (by decide +kernel) 3 (by decide) 4
    intro j habove hbelow
    obtain rfl | rfl : j = 1 ∨ j = 2 := by
      have hlt : j < 3 := hbelow
      omega
    · decide +kernel
    · decide +kernel

end Document

end PonyEditor
