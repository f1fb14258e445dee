import PonyEditor.Proofs.TokenSlices

/-!
# Tokens in a span

A walk over a span looks at tokens from the line of the start of the span on, and ends at the first
token past it.  What it has yet to look at is a list of tokens in order (`RangeWalk.due`).  Each
step passes over tokens that do not overlap the span and gives the first that does
(`RangeWalk.filter_due_of_some`), or there is none left (`RangeWalk.filter_due_of_none`).  The whole
walk is therefore a filter of that list (`RangeWalk.toList_eq`), and in a text within the limit the
lines it never comes to hold no token for it (`View.filter_tokens`).
-/

namespace PonyEditor

namespace Token

/-- The token is no blank and overlaps the span: they share a byte, or the span is without bytes and
the token has the byte at its start. -/
def Overlaps (span : Span) (t : Token) : Prop :=
  t.kind ≠ .blank ∧
    if span.start < span.stop then t.span.start < span.stop ∧ span.start < t.span.stop
    else t.span.start ≤ span.start ∧ span.start < t.span.stop

instance (span : Span) : DecidablePred (Overlaps span) :=
  fun _ => inferInstanceAs (Decidable (_ ∧ ite _ _ _))

/-- The tokens are in order and each has a byte. -/
structure Listed (ts : List Token) : Prop where
  ordered : ts.Pairwise fun s t => s.span.stop ≤ t.span.start
  nonempty : ∀ t ∈ ts, t.span.start < t.span.stop

lemma Listed.sublist {xs ys : List Token} (h : Listed ys) (hsub : xs.Sublist ys) : Listed xs :=
  ⟨h.ordered.sublist hsub, fun t ht => h.nonempty t (hsub.subset ht)⟩

end Token

lemma Span.intersects_iff {s t : Span} (hs : s.start < s.stop) :
    s.intersects t = true ↔
      if t.start < t.stop then s.start < t.stop ∧ t.start < s.stop
      else s.start ≤ t.start ∧ t.start < s.stop := by
  have hs' : ¬ s.isEmpty = true := fun hempty => Nat.not_le.mpr hs (isEmpty_iff.mp hempty)
  rw [intersects, if_neg hs']
  by_cases ht : t.start < t.stop
  · have ht' : ¬ t.isEmpty = true := fun hempty => Nat.not_le.mpr ht (isEmpty_iff.mp hempty)
    rw [if_neg ht', if_pos ht, Bool.and_eq_true, decide_eq_true_eq, decide_eq_true_eq]
  · rw [if_pos (isEmpty_iff.mpr (Nat.not_lt.mp ht)), if_neg ht, contains_iff]

/-! ## One step of the walk -/

namespace RangeWalk

variable {span : Span} {ts left : List Token} {t : Token}

/-- A token with a byte is passed over exactly when it does not overlap the span. -/
lemma passes_iff (ht : t.span.start < t.span.stop) :
    (t.kind == .blank || !t.span.intersects span) = true ↔ ¬ t.Overlaps span := by
  rw [Token.Overlaps, ← Span.intersects_iff ht, Bool.or_eq_true, beq_iff_eq, Bool.not_eq_true',
    Bool.eq_false_iff, not_and_or, not_not]

/-- The first token that is found is the first that overlaps the span. -/
lemma filter_of_found (hts : ∀ s ∈ ts, s.span.start < s.span.stop)
    (h : find span ts = .found t left) :
    ts.filter (Token.Overlaps span) = t :: left.filter (Token.Overlaps span) := by
  fun_induction find span ts with
  | case1 => cases h
  | case2 => cases h
  | case3 s ts _ hpass ih =>
      have hskip := (passes_iff (hts s List.mem_cons_self)).mp hpass
      rw [List.filter_cons_of_neg (by simpa using hskip)]
      exact ih (fun s hs => hts s (List.mem_cons_of_mem _ hs)) h
  | case4 s ts _ hpass =>
      cases h
      have hwanted := not_not.mp (mt (passes_iff (hts t List.mem_cons_self)).mpr hpass)
      rw [List.filter_cons_of_pos (by simpa using hwanted)]

lemma sublist_of_found (h : find span ts = .found t left) : left.Sublist ts := by
  fun_induction find span ts with
  | case1 => cases h
  | case2 => cases h
  | case3 s ts _ _ ih => exact (ih h).trans (List.sublist_cons_self _ _)
  | case4 s ts _ _ =>
      cases h
      exact List.sublist_cons_self _ _

lemma filter_of_exhausted (hts : ∀ s ∈ ts, s.span.start < s.span.stop)
    (h : find span ts = .exhausted) : ts.filter (Token.Overlaps span) = [] := by
  fun_induction find span ts with
  | case1 => rfl
  | case2 => cases h
  | case3 s ts _ hpass ih =>
      have hskip := (passes_iff (hts s List.mem_cons_self)).mp hpass
      rw [List.filter_cons_of_neg (by simpa using hskip)]
      exact ih (fun s hs => hts s (List.mem_cons_of_mem _ hs)) h
  | case4 => cases h

/-- After a token past the span no token overlaps it, on this line or a later one. -/
lemma filter_of_past {later : List Token} (hts : Token.Listed (ts ++ later))
    (h : find span ts = .past) : (ts ++ later).filter (Token.Overlaps span) = [] := by
  fun_induction find span ts with
  | case1 => cases h
  | case2 s ts hpast =>
      rw [Bool.and_eq_true, Bool.not_eq_true', Span.isEmpty, decide_eq_false_iff_not,
        decide_eq_true_eq] at hpast
      obtain ⟨hspan, hstop⟩ := hpast
      have hafter : ∀ u ∈ s :: ts ++ later, span.stop ≤ u.span.start := by
        intro u hu
        rcases List.mem_cons.mp hu with rfl | hu
        · exact hstop
        · have hbyte := hts.nonempty s List.mem_cons_self
          have hle := (List.pairwise_cons.mp hts.ordered).1 u hu
          omega
      rw [List.filter_eq_nil_iff]
      intro u hu hwanted
      have hlt := (decide_eq_true_eq.mp hwanted).2
      rw [if_pos (Nat.not_le.mp hspan)] at hlt
      exact Nat.not_lt.mpr (hafter u hu) hlt.1
  | case3 s ts _ hpass ih =>
      have hskip := (passes_iff (hts.nonempty s List.mem_cons_self)).mp hpass
      rw [List.cons_append, List.filter_cons_of_neg (by simpa using hskip)]
      exact ih (hts.sublist (List.sublist_cons_self _ _)) h
  | case4 => cases h

variable {σ : Type} [Lined σ]

/-- The tokens that the walk has yet to look at, were it not to end before. -/
def due (w : RangeWalk σ) : List Token :=
  w.left ++ (List.range' (w.line + 1) (w.last - w.line)).flatMap w.view.tokensOf

lemma nonempty_left {w : RangeWalk σ} (hw : Token.Listed w.due) :
    ∀ s ∈ w.left, s.span.start < s.span.stop :=
  fun s hs => hw.nonempty s (List.mem_append_left _ hs)

lemma due_nextLine {w : RangeWalk σ} (h : w.line < w.last) :
    due { w with line := w.line + 1, left := w.view.tokensOf (w.line + 1) } =
      (List.range' (w.line + 1) (w.last - w.line)).flatMap w.view.tokensOf := by
  obtain ⟨n, hn⟩ : ∃ n, w.last - w.line = n + 1 := ⟨w.last - w.line - 1, by omega⟩
  have hlater : w.last - (w.line + 1) = n := by omega
  rw [due, hlater, hn, List.range'_succ, List.flatMap_cons]

/-- A step that gives a token passes over no other that overlaps the span. -/
lemma filter_due_of_some {w w' : RangeWalk σ} (hw : Token.Listed w.due)
    (h : w.next? = some (t, w')) :
    w.due.filter (Token.Overlaps w.span) = t :: w'.due.filter (Token.Overlaps w.span) ∧
      w'.due.Sublist w.due ∧ w'.span = w.span := by
  fun_induction next? w with
  | case1 w token left hfind =>
      cases h
      refine ⟨?_, (sublist_of_found hfind).append (List.Sublist.refl _), rfl⟩
      rw [due, List.filter_append, filter_of_found (nonempty_left hw) hfind, due,
        List.filter_append]
      rfl
  | case2 => cases h
  | case3 w hfind hlt ih =>
      rw [due_nextLine hlt] at ih
      obtain ⟨hfilter, hsub, hspan⟩ := ih (hw.sublist (List.sublist_append_right _ _)) h
      refine ⟨?_, hsub.trans (List.sublist_append_right _ _), hspan⟩
      rw [due, List.filter_append, filter_of_exhausted (nonempty_left hw) hfind, List.nil_append,
        hfilter]
  | case4 => cases h

/-- A walk that ends leaves no token that overlaps the span. -/
lemma filter_due_of_none {w : RangeWalk σ} (hw : Token.Listed w.due) (h : w.next? = none) :
    w.due.filter (Token.Overlaps w.span) = [] := by
  fun_induction next? w with
  | case1 => cases h
  | case2 w hfind => exact filter_of_past hw hfind
  | case3 w hfind hlt ih =>
      rw [due_nextLine hlt] at ih
      rw [due, List.filter_append, filter_of_exhausted (nonempty_left hw) hfind, List.nil_append]
      exact ih (hw.sublist (List.sublist_append_right _ _)) h
  | case4 w hfind hge =>
      rw [due, Nat.sub_eq_zero_of_le (Nat.not_lt.mp hge), List.range'_zero, List.flatMap_nil,
        List.append_nil]
      exact filter_of_exhausted (nonempty_left hw) hfind

/-- **A walk gives the tokens it has yet to look at that overlap the span.** -/
lemma toList_eq {w : RangeWalk σ} (hw : Token.Listed w.due) :
    w.toList = w.due.filter (Token.Overlaps w.span) := by
  fun_induction toList w with
  | case1 w hnext => exact (filter_due_of_none hw hnext).symm
  | case2 w t w' hnext ih =>
      obtain ⟨hfilter, hsub, hspan⟩ := filter_due_of_some hw hnext
      rw [hfilter, ih (hw.sublist hsub), hspan]

end RangeWalk

/-! ## The lines of the walk -/

namespace View

variable {σ : Type} [Lined σ] {v : View σ} (hv : Lined.Exact v.source)
  (hlimit : Text.width (Text.unlines (Lined.lines v.source)).toList ≤ Offset.limit)
include hv hlimit

lemma listed_tokens : Token.Listed v.tokens := by
  refine ⟨(tokens_inOrder hv).pairwise, fun t ht => ?_⟩
  obtain ⟨i, hi, hmem⟩ := List.mem_flatMap.mp ht
  exact (tiles_tokensOf hv hlimit (List.mem_range.mp hi)).nonempty hmem

omit hv hlimit in
lemma filter_flatMap_tokensOf {span : Span} {is : List Nat}
    (h : ∀ i ∈ is, ∀ t ∈ v.tokensOf i, ¬ t.Overlaps span) :
    (is.flatMap v.tokensOf).filter (Token.Overlaps span) = [] := by
  rw [List.filter_eq_nil_iff]
  intro t ht hoverlaps
  obtain ⟨i, hi, hmem⟩ := List.mem_flatMap.mp ht
  exact h i hi t hmem (decide_eq_true_eq.mp hoverlaps)

/-- The tokens of a line that ends before the span starts do not overlap it. -/
lemma not_overlaps_of_lt {span : Span} {i first : Nat} (hi : i < first)
    (hfirst : Text.Holds (Lined.lines v.source) first span.start) {t : Token}
    (ht : t ∈ v.tokensOf i) : ¬ t.Overlaps span := by
  have hcount : i < (Lined.lines v.source).length := lt_lineCount_of_mem_tokensOf ht
  obtain ⟨-, -, hstop⟩ := (tiles_tokensOf hv hlimit hcount).inOrder.bounds ht
  obtain ⟨-, -, hstart, -⟩ := hfirst
  have hbefore := Text.bytesBefore_lt hi hcount
  rintro ⟨-, hoverlaps⟩
  split at hoverlaps <;> omega

/-- The tokens of a line that starts after the span ends do not overlap it.  A span without bytes
ends where it starts. -/
lemma not_overlaps_of_gt {span : Span} {i first : Nat} (hi : first < i)
    (hfirst : Text.Holds (Lined.lines v.source) first span.start)
    (hlast : ∃ last < i, Text.Holds (Lined.lines v.source) last span.stop) {t : Token}
    (ht : t ∈ v.tokensOf i) : ¬ t.Overlaps span := by
  have hcount : i < (Lined.lines v.source).length := lt_lineCount_of_mem_tokensOf ht
  obtain ⟨hstart, -, -⟩ := (tiles_tokensOf hv hlimit hcount).inOrder.bounds ht
  obtain ⟨last, hlt, hstop⟩ := hlast
  have hpast := hfirst.lt_bytesBefore hi
  have hpast' := hstop.lt_bytesBefore hlt
  rintro ⟨-, hoverlaps⟩
  split at hoverlaps <;> omega

/-- A span that starts past the text overlaps no token. -/
lemma not_overlaps_of_none {span : Span} (hnone : v.lineAt? span.start = none) {t : Token}
    (ht : t ∈ v.tokens) : ¬ t.Overlaps span := by
  obtain ⟨i, hi, hmem⟩ := List.mem_flatMap.mp ht
  have hcount : i < (Lined.lines v.source).length := List.mem_range.mp hi
  obtain ⟨-, -, hstop⟩ := (tiles_tokensOf hv hlimit hcount).inOrder.bounds hmem
  have hwithin := Text.bytesBefore_add_le hcount
  rw [lineAt?, hv.lineAt?, Text.lineAt?_eq_none_iff hlimit] at hnone
  rcases hnone with hnil | hpast
  · rw [hnil] at hcount
    cases hcount
  · rintro ⟨-, hoverlaps⟩
    split at hoverlaps <;> omega

/-- The last line of the walk is a line of the text, and if lines come after it the span ends in
it. -/
lemma last_of_range (span : Span) (hpos : 0 < v.lineCount) :
    (v.lineAt? span.stop).getD (v.lineCount - 1) < v.lineCount ∧
      ∀ i < v.lineCount, (v.lineAt? span.stop).getD (v.lineCount - 1) < i →
        Text.Holds (Lined.lines v.source) ((v.lineAt? span.stop).getD (v.lineCount - 1))
          span.stop := by
  cases hlast : v.lineAt? span.stop with
  | none =>
      rw [Option.getD_none]
      exact ⟨by omega, fun i hi hlt => absurd hi (by omega)⟩
  | some last =>
      have hholds := (lineAt?_eq_some_iff hv hlimit).mp hlast
      rw [Option.getD_some]
      exact ⟨hholds.lt_length, fun _ _ _ => hholds⟩

/-- Lines before that of the start of the span and after that of its end hold no token that
overlaps it. -/
lemma filter_tokens {span : Span} {first last : Nat}
    (hfirst : Text.Holds (Lined.lines v.source) first span.start) (hlast : last < v.lineCount)
    (hlater : ∀ i < v.lineCount, last < i → Text.Holds (Lined.lines v.source) last span.stop) :
    v.tokens.filter (Token.Overlaps span) =
      ((List.range' first (last - first + 1)).flatMap v.tokensOf).filter (Token.Overlaps span) := by
  have hcount : first < v.lineCount := hfirst.lt_length
  have hbefore : ((List.range' 0 first).flatMap v.tokensOf).filter (Token.Overlaps span) = [] := by
    apply filter_flatMap_tokensOf
    intro i hi t ht
    obtain ⟨-, hlt⟩ := List.mem_range'_1.mp hi
    exact not_overlaps_of_lt hv hlimit (by omega) hfirst ht
  have hafter : ((List.range' (first + (last - first + 1))
      (v.lineCount - (first + (last - first + 1)))).flatMap v.tokensOf).filter
        (Token.Overlaps span) = [] := by
    apply filter_flatMap_tokensOf
    intro i hi t ht
    obtain ⟨hge, hlt⟩ := List.mem_range'_1.mp hi
    have hends := hlater i (by omega) (by omega)
    exact not_overlaps_of_gt hv hlimit (by omega) hfirst ⟨last, by omega, hends⟩ ht
  rw [v.tokens_eq_append first (last - first + 1) (by omega), List.filter_append,
    List.filter_append, hbefore, hafter, List.nil_append, List.append_nil]

/-- **The walk over a span gives the tokens of the text that overlap it.** -/
lemma toList_range (span : Span) :
    (v.range span).toList = v.tokens.filter (Token.Overlaps span) := by
  cases hfound : v.lineAt? span.start with
  | none =>
      have hdue : (v.range span).due = [] := by simp [range, hfound, RangeWalk.due]
      rw [RangeWalk.toList_eq (by rw [hdue]; exact ⟨.nil, by simp⟩), hdue, List.filter_nil,
        eq_comm, List.filter_eq_nil_iff]
      intro t ht hoverlaps
      exact not_overlaps_of_none hv hlimit hfound ht (decide_eq_true_eq.mp hoverlaps)
  | some first =>
      have hfirst := (lineAt?_eq_some_iff hv hlimit).mp hfound
      have hcount : first < v.lineCount := hfirst.lt_length
      obtain ⟨hlast, hlater⟩ := last_of_range hv hlimit span (Nat.zero_lt_of_lt hcount)
      have hspan : (v.range span).span = span := by rw [range, hfound]
      have hdue : (v.range span).due = (List.range' first
          ((v.lineAt? span.stop).getD (v.lineCount - 1) - first + 1)).flatMap v.tokensOf := by
        rw [range, hfound, RangeWalk.due, List.range'_succ, List.flatMap_cons]
      have hlisted : Token.Listed (v.range span).due := by
        have hsplit := v.tokens_eq_append first
          ((v.lineAt? span.stop).getD (v.lineCount - 1) - first + 1) (by omega)
        apply (listed_tokens hv hlimit).sublist
        rw [hdue, hsplit]
        exact (List.sublist_append_left _ _).trans (List.sublist_append_right _ _)
      rw [RangeWalk.toList_eq hlisted, hspan, hdue, filter_tokens hv hlimit hfirst hlast hlater]

omit hv hlimit

/-- **The tokens in a span are those of the text that overlap it.**  For lines whose text is within
the limit, whatever modes are recorded for them, and for every span, one that is empty, inverted or
past the text included: the walk over the span gives the tokens of all lines that are no blanks and
overlap the span, in the order of the text.  It does so over every holder of the lines that answers
as the list of them does, and a buffer is one. -/
theorem range_gives_overlapping_tokens (lines : List String)
    (hlimit : (Text.unlines lines).utf8ByteSize < Offset.limit) (table : ModeTable) (span : Span) :
    (∀ {σ : Type} [Lined σ] (source : σ), Lined.lines source = lines → Lined.Exact source →
      let v : View σ := ⟨table, source⟩
      (v.range span).toList = v.tokens.filter (Token.Overlaps span) ∧
        v.tokens.Pairwise fun s t => s.span.stop ≤ t.span.start) ∧
    Lined.Exact lines ∧ Lined.Exact (Buffer.ofLines lines) := by
  rw [Text.utf8ByteSize_eq] at hlimit
  refine ⟨?_, Lined.exact_list lines, Buffer.exact_ofLines lines⟩
  rintro σ _ source rfl hexact v
  have hv : Lined.Exact v.source := hexact
  have hle : Text.width (Text.unlines (Lined.lines v.source)).toList ≤ Offset.limit :=
    Nat.le_of_lt hlimit
  exact ⟨toList_range hv hle span, (tokens_inOrder hv).pairwise⟩

/-- Modes that are not those of the text: the last line is taken for the inside of a comment.  An
inverted span gives the token at its start, and a span from a line feed to past the text gives all
that comes after. -/
theorem range_gives_overlapping_tokens_inverted :
    let lines := ["if x", "", "end )"]
    let table : ModeTable := ⟨[some .normal, none, some (.ofDepth 1)], .zero⟩
    let v : View Buffer := ⟨table, Buffer.ofLines lines⟩
    (Text.unlines lines).utf8ByteSize < Offset.limit ∧
    (v.range ⟨7, 2⟩).toList = [⟨.comment, ⟨6, 11⟩⟩] ∧
    (v.range ⟨4, 99⟩).toList = [⟨.comment, ⟨6, 11⟩⟩] ∧
    (v.range ⟨1, 6⟩).toList = [⟨.kwIf, ⟨0, 2⟩⟩, ⟨.valueName, ⟨3, 4⟩⟩] := by
  intro lines table v
  have hlimit : (Text.unlines lines).utf8ByteSize < Offset.limit := by decide +kernel
  have hlines : Lined.lines (Buffer.ofLines lines) = lines := rfl
  have hwalk (span : Span) : (v.range span).toList = v.tokens.filter (Token.Overlaps span) := by
    obtain ⟨hholder, -, hbuffer⟩ := range_gives_overlapping_tokens lines hlimit table span
    obtain ⟨hgives, -⟩ := hholder (Buffer.ofLines lines) hlines hbuffer
    exact hgives
  refine ⟨hlimit, ?_, ?_, ?_⟩
  · rw [hwalk]
    decide +kernel
  · rw [hwalk]
    decide +kernel
  · rw [hwalk]
    decide +kernel

end View
end PonyEditor
