import Mathlib.Tactic.Lemma
import Mathlib.Tactic.SplitIfs
import PonyEditor.Proofs.LexemeWidths
import PonyEditor.Proofs.ByteOffsets
import PonyEditor.View

/-!
# The order of tokens

The tokens of a text, line after line, come in the order of their bytes and share none
(`tokens_inOrder`).  Offsets that stop at the limit do not change this: past it spans are empty.

Halving finds the line an offset is in whether the holder of the lines adds up lengths or keeps a
table of starts (`Lined.Exact`).  So an offset inside a token finds that token, and every token
found is one of the text (`tokenAt?_eq_some_iff`).
-/

namespace PonyEditor

/-! ## Sums that stop at the limit -/

namespace Offset

lemma le_add {a : Nat} (h : a ≤ limit) (b : Nat) : a ≤ add a b :=
  Nat.le_min.mpr ⟨Nat.le_add_right a b, h⟩

lemma add_add (a b c : Nat) : add (add a b) c = add a (b + c) := by
  simp only [add, cap]
  omega

lemma add_cap (a b : Nat) : add a (cap b) = add a b := by
  simp only [add, cap]
  omega

end Offset

/-! ## Tokens in order -/

namespace Token

/-- The tokens lie between two offsets, each ends where it starts or later, and the next starts
where it ends or later. -/
def InOrder : Nat → Nat → List Token → Prop
  | start, stop, [] => start ≤ stop
  | start, stop, t :: ts =>
    start ≤ t.span.start ∧ t.span.start ≤ t.span.stop ∧ InOrder t.span.stop stop ts

namespace InOrder

variable {start middle stop : Nat} {xs ys : List Token}

lemma start_le_stop (h : InOrder start stop xs) : start ≤ stop := by
  induction xs generalizing start with
  | nil => exact h
  | cons t xs ih =>
      obtain ⟨hstart, hspan, hrest⟩ := h
      exact Nat.le_trans hstart (Nat.le_trans hspan (ih hrest))

lemma append (hxs : InOrder start middle xs) (hys : InOrder middle stop ys) :
    InOrder start stop (xs ++ ys) := by
  induction xs generalizing start with
  | nil =>
      cases ys with
      | nil => exact Nat.le_trans hxs hys
      | cons t ys =>
          obtain ⟨hmiddle, hspan, hrest⟩ := hys
          exact ⟨Nat.le_trans hxs hmiddle, hspan, hrest⟩
  | cons t xs ih =>
      obtain ⟨hstart, hspan, hrest⟩ := hxs
      exact ⟨hstart, hspan, ih hrest⟩

lemma mono (h : InOrder start middle xs) (hle : middle ≤ stop) : InOrder start stop xs := by
  have hnil : InOrder middle stop [] := hle
  rw [← List.append_nil xs]
  exact h.append hnil

lemma bounds (h : InOrder start stop xs) {t : Token} (ht : t ∈ xs) :
    start ≤ t.span.start ∧ t.span.start ≤ t.span.stop ∧ t.span.stop ≤ stop := by
  induction xs generalizing start with
  | nil => exact nomatch ht
  | cons s xs ih =>
      obtain ⟨hstart, hspan, hrest⟩ := h
      rcases List.mem_cons.mp ht with rfl | ht
      · exact ⟨hstart, hspan, hrest.start_le_stop⟩
      · obtain ⟨hlater, hbounds⟩ := ih hrest ht
        exact ⟨Nat.le_trans hstart (Nat.le_trans hspan hlater), hbounds⟩

lemma pairwise (h : InOrder start stop xs) :
    xs.Pairwise fun s t => s.span.stop ≤ t.span.start := by
  induction xs generalizing start with
  | nil => exact .nil
  | cons t xs ih =>
      obtain ⟨-, -, hrest⟩ := h
      exact .cons (fun s hs => (hrest.bounds hs).1) (ih hrest)

/-- A token of the first part ends before any of the second starts. -/
lemma stop_le_start (h : InOrder start stop (xs ++ ys)) {s t : Token} (hs : s ∈ xs) (ht : t ∈ ys) :
    s.span.stop ≤ t.span.start :=
  (List.pairwise_append.mp h.pairwise).2.2 s hs t ht

lemma stop_le_start_of_mem_after {t s : Token} (h : InOrder start stop (xs ++ t :: ys))
    (hs : s ∈ ys) : t.span.stop ≤ s.span.start := by
  have happend : xs ++ t :: ys = (xs ++ [t]) ++ ys := by simp
  rw [happend] at h
  exact h.stop_le_start (List.mem_append_right xs List.mem_cons_self) hs

/-- The tokens that end before a token with a byte are those listed before it. -/
lemma filter_before {t : Token} (h : InOrder start stop (xs ++ t :: ys))
    (ht : t.span.start < t.span.stop) :
    (xs ++ t :: ys).filter (fun s => s.span.stop ≤ t.span.start) = xs := by
  have hxs : xs.filter (fun s => s.span.stop ≤ t.span.start) = xs := by
    apply List.filter_eq_self.mpr
    intro s hs
    exact decide_eq_true (h.stop_le_start hs List.mem_cons_self)
  have hys : ys.filter (fun s => s.span.stop ≤ t.span.start) = [] := by
    apply List.filter_eq_nil_iff.mpr
    intro s hs
    have hspan := (h.bounds (t := s) (by simp [hs])).2.1
    have hafter := h.stop_le_start_of_mem_after hs
    simp only [decide_eq_true_eq, Nat.not_le]
    omega
  rw [List.filter_append, hxs, List.filter_cons_of_neg (by simpa using ht), hys, List.append_nil]

/-- The tokens that start after a token with a byte are those listed after it. -/
lemma filter_after {t : Token} (h : InOrder start stop (xs ++ t :: ys))
    (ht : t.span.start < t.span.stop) :
    (xs ++ t :: ys).filter (fun s => t.span.stop ≤ s.span.start) = ys := by
  have hxs : xs.filter (fun s => t.span.stop ≤ s.span.start) = [] := by
    apply List.filter_eq_nil_iff.mpr
    intro s hs
    have hspan := (h.bounds (t := s) (by simp [hs])).2.1
    have hbefore : s.span.stop ≤ t.span.start := h.stop_le_start hs List.mem_cons_self
    simp only [decide_eq_true_eq, Nat.not_le]
    omega
  have hys : ys.filter (fun s => t.span.stop ≤ s.span.start) = ys := by
    apply List.filter_eq_self.mpr
    intro s hs
    exact decide_eq_true (h.stop_le_start_of_mem_after hs)
  rw [List.filter_append, hxs, List.filter_cons_of_neg (by simpa using ht), hys, List.nil_append]

end InOrder

/-- Consecutive lexemes give tokens in order, up to where their bytes end. -/
lemma inOrder_ofLexemes {start : Nat} (h : start ≤ Offset.limit) (ls : List Lexeme) :
    InOrder start (Offset.add start (Lexeme.totalWidth ls)) (ofLexemes start ls) := by
  induction ls generalizing start with
  | nil => exact Offset.le_add h 0
  | cons l ls ih =>
      have hrest := ih (Offset.add_le start l.width)
      rw [Offset.add_add] at hrest
      exact ⟨Nat.le_refl start, Offset.le_add h l.width, hrest⟩

end Token

/-! ## Finding a line -/

/-- **Halving finds the last number at which the condition holds.** -/
lemma bisect_eq {p : Nat → Bool} {lo hi last : Nat} (hlo : lo ≤ last) (hhi : last < hi)
    (hholds : ∀ i, i ≤ last → p i = true) (hfails : ∀ i, last < i → i < hi → p i = false) :
    bisect p lo hi = last := by
  fun_induction bisect p lo hi with
  | case1 lo hi hshort => omega
  | case2 lo hi hlong hmiddle ih =>
      have hle : lo + (hi - lo) / 2 ≤ last := by
        rcases Nat.lt_or_ge last (lo + (hi - lo) / 2) with hlt | hge
        · rw [hfails _ hlt (by omega)] at hmiddle
          exact nomatch hmiddle
        · exact hge
      exact ih hle hhi hfails
  | case3 lo hi hlong hmiddle ih =>
      have hlt : last < lo + (hi - lo) / 2 := by
        rcases Nat.lt_or_ge last (lo + (hi - lo) / 2) with hlt | hge
        · exact hlt
        · exact absurd (hholds _ hge) hmiddle
      exact ih hlo hlt fun i hi' hlt' => hfails i hi' (by omega)

namespace Text

/-- Where a line starts, or would start if it is the one after the last. -/
def lineStart (lines : List String) (i : Nat) : Nat := (lines.take i).foldl nextStart 0

variable {lines : List String}

lemma start?_of_lt {i : Nat} (hi : i < lines.length) :
    start? lines i = some (lineStart lines i) :=
  if_pos hi

lemma lineStart_succ {i : Nat} (hi : i < lines.length) :
    lineStart lines (i + 1) = nextStart (lineStart lines i) lines[i] := by
  rw [lineStart, List.take_succ_eq_append_getElem hi, List.foldl_append]
  rfl

lemma lineStart_le_limit (lines : List String) (i : Nat) : lineStart lines i ≤ Offset.limit := by
  rcases List.eq_nil_or_concat (lines.take i) with hnil | ⟨init, last, hconcat⟩
  · rw [lineStart, hnil]
    exact Nat.zero_le _
  · rw [lineStart, hconcat, List.concat_eq_append, List.foldl_append]
    exact Offset.add_le _ 1

/-- A line ends before the next one starts, or at the limit together with it. -/
lemma lineStop_le_lineStart_succ {i : Nat} (hi : i < lines.length) :
    Offset.add (lineStart lines i) (lineLength lines[i]) ≤ lineStart lines (i + 1) := by
  rw [lineStart_succ hi]
  exact Offset.le_add (Offset.add_le _ _) 1

lemma lineStart_mono {i j : Nat} (h : i ≤ j) : lineStart lines i ≤ lineStart lines j := by
  induction h with
  | refl => exact Nat.le_refl _
  | @step j hle ih =>
      rcases Nat.lt_or_ge j lines.length with hj | hj
      · have hstop := Offset.le_add (lineStart_le_limit lines j) (lineLength lines[j])
        exact Nat.le_trans ih (Nat.le_trans hstop (lineStop_le_lineStart_succ hj))
      · have hsame : lineStart lines (j + 1) = lineStart lines j := by
          rw [lineStart, lineStart, List.take_of_length_le hj, List.take_of_length_le (by omega)]
        rwa [hsame]

/-- The line of an offset is the one that starts at or before it, if it does not end before it and
every later one starts after it. -/
lemma lineAt?_of_le {i offset : Nat} (hi : i < lines.length) (hstart : lineStart lines i ≤ offset)
    (hstop : offset ≤ Offset.add (lineStart lines i) (lineLength lines[i]))
    (hlater : ∀ j, i < j → j < lines.length → offset < lineStart lines j) :
    lineAt? lines offset = some i := by
  have hne : ¬ lines.isEmpty = true := by
    intro hempty
    rw [List.isEmpty_iff.mp hempty] at hi
    exact nomatch hi
  have hbisect : bisect (fun i => (start? lines i).any (· ≤ offset)) 0 lines.length = i := by
    apply bisect_eq (Nat.zero_le i) hi
    · intro j hj
      have hle : lineStart lines j ≤ offset := Nat.le_trans (lineStart_mono hj) hstart
      simp [start?_of_lt (Nat.lt_of_le_of_lt hj hi), hle]
    · intro j hij hj
      simp [start?_of_lt hj, hlater j hij hj]
  simp only [lineAt?, if_neg hne, hbisect, start?_of_lt hi, List.getElem?_eq_getElem hi,
    Option.getD_some, if_pos hstop]

end Text

/-- A holder of lines that answers as the list of its lines does. -/
structure Lined.Exact {σ : Type} [Lined σ] (source : σ) : Prop where
  start? : ∀ i, Lined.start? source i = Text.start? (Lined.lines source) i
  lineAt? : ∀ offset, Lined.lineAt? source offset = Text.lineAt? (Lined.lines source) offset

/-- A table of starts is searched to the same end as the list. -/
lemma Buffer.exact_ofLines (lines : List String) : Lined.Exact (Buffer.ofLines lines) where
  start? := Starts.get?_ofLines lines
  lineAt? := by
    intro offset
    have hget : (Starts.ofLines lines).get? = Text.start? lines :=
      funext (Starts.get?_ofLines lines)
    change Buffer.lineAt? (Buffer.ofLines lines) offset = Text.lineAt? lines offset
    simp only [Buffer.lineAt?, Buffer.ofLines, Starts.lineOf?, hget, Starts.size_ofLines,
      Text.lineAt?]
    cases lines with
    | nil => rfl
    | cons line lines =>
        have hzero : Text.start? (line :: lines) 0 = some 0 := rfl
        simp only [hzero, Option.any_some, Nat.zero_le, decide_true, if_true, List.isEmpty_cons,
          Bool.false_eq_true, if_false, Option.bind_eq_bind, Option.bind_some]
        cases Text.start? (line :: lines) _ with
        | none => rfl
        | some start => rfl

/-! ## The tokens of a text -/

namespace View

variable {σ : Type} [Lined σ] {v : View σ}

lemma tokensOf_of_lt (hv : Lined.Exact v.source) {line : Nat}
    (hline : line < (Lined.lines v.source).length) :
    v.tokensOf line = Token.ofLexemes (Text.lineStart (Lined.lines v.source) line)
      ((v.mode line).lexemes (Lined.lines v.source)[line]) := by
  have htext : v.line? line = some (Lined.lines v.source)[line] := List.getElem?_eq_getElem hline
  have hstart : v.start? line = some (Text.lineStart (Lined.lines v.source) line) :=
    (hv.start? line).trans (Text.start?_of_lt hline)
  simp only [tokensOf, walk, htext, hstart]
  rfl

/-- The tokens of a line are in order from its start to its end. -/
lemma tokensOf_inOrder (hv : Lined.Exact v.source) {line : Nat}
    (hline : line < (Lined.lines v.source).length) :
    Token.InOrder (Text.lineStart (Lined.lines v.source) line)
      (Offset.add (Text.lineStart (Lined.lines v.source) line)
        (Text.lineLength (Lined.lines v.source)[line]))
      (v.tokensOf line) := by
  rw [tokensOf_of_lt hv hline, Text.lineLength, Offset.add_cap,
    ← Mode.totalWidth_lexemes (v.mode line)]
  exact Token.inOrder_ofLexemes (Text.lineStart_le_limit _ _) _

/-- **The tokens of a text are in order**, whatever the table of modes. -/
lemma tokens_inOrder (hv : Lined.Exact v.source) :
    Token.InOrder 0 (Text.lineStart (Lined.lines v.source) v.lineCount) v.tokens := by
  have hupto : ∀ n, n ≤ v.lineCount → Token.InOrder 0 (Text.lineStart (Lined.lines v.source) n)
      ((List.range n).flatMap v.tokensOf) := by
    intro n hn
    induction n with
    | zero => exact Nat.le_refl 0
    | succ n ih =>
        rw [List.range_succ, List.flatMap_append, List.flatMap_singleton]
        have hlast := (tokensOf_inOrder hv hn).mono (Text.lineStop_le_lineStart_succ hn)
        exact (ih (Nat.le_of_succ_le hn)).append hlast
  exact hupto v.lineCount (Nat.le_refl _)

/-- The tokens of the lines before `first`, of `n` lines from it on, and of the lines after. -/
lemma tokens_eq_append (first n : Nat) (h : first + n ≤ v.lineCount) :
    v.tokens = (List.range' 0 first).flatMap v.tokensOf ++
      ((List.range' first n).flatMap v.tokensOf ++
        (List.range' (first + n) (v.lineCount - (first + n))).flatMap v.tokensOf) := by
  have hlater : n + (v.lineCount - (first + n)) = v.lineCount - first := by omega
  have hall : first + (v.lineCount - first) = v.lineCount := by omega
  have hfirst : List.range' 0 first ++ List.range' first (v.lineCount - first) =
      List.range v.lineCount := by
    have happend := List.range'_append_1 (s := 0) (m := first) (n := v.lineCount - first)
    rwa [Nat.zero_add, hall, ← List.range_eq_range' (n := v.lineCount)] at happend
  have hrange : List.range v.lineCount = List.range' 0 first ++
      (List.range' first n ++ List.range' (first + n) (v.lineCount - (first + n))) := by
    rw [List.range'_append_1, hlater, hfirst]
  rw [tokens, hrange, List.flatMap_append, List.flatMap_append]

/-- Tokens listed earlier end before those listed later start. -/
lemma stop_le_start_of_lt (hv : Lined.Exact v.source) {k l : Nat} {s t : Token}
    (hs : v.tokens[k]? = some s) (ht : v.tokens[l]? = some t) (hkl : k < l) :
    s.span.stop ≤ t.span.start := by
  have horder := tokens_inOrder hv
  rw [← List.take_append_drop l v.tokens] at horder
  apply horder.stop_le_start
  · exact List.mem_of_getElem? (i := k) ((List.getElem?_take_of_lt hkl).trans hs)
  · exact List.mem_of_getElem? (i := 0) (List.getElem?_drop.trans ht)

lemma find?_of_inOrder {start stop : Nat} {tokens : List Token}
    (h : Token.InOrder start stop tokens) {t : Token} (ht : t ∈ tokens) {offset : Nat}
    (hoffset : t.span.contains offset = true) :
    tokens.find? (fun t => t.span.contains offset) = some t := by
  obtain ⟨before, after, rfl⟩ := List.append_of_mem ht
  apply List.find?_eq_some_iff_append.mpr
  refine ⟨hoffset, before, after, rfl, ?_⟩
  intro s hs
  have hstop : s.span.stop ≤ t.span.start := h.stop_le_start hs List.mem_cons_self
  have hstart : t.span.start ≤ offset := (Span.contains_iff.mp hoffset).1
  have hnot : ¬ s.span.contains offset = true := by
    intro hcontains
    have hlt := (Span.contains_iff.mp hcontains).2
    omega
  simpa using hnot

lemma lt_lineCount_of_mem_tokensOf {line : Nat} {t : Token} (ht : t ∈ v.tokensOf line) :
    line < v.lineCount := by
  rcases Nat.lt_or_ge line v.lineCount with hlt | hge
  · exact hlt
  · have hnone : v.line? line = none := List.getElem?_eq_none hge
    simp only [tokensOf, walk, hnone] at ht
    exact nomatch ht

/-- What is found at an offset is a token of the line found, and the offset is inside it. -/
lemma of_tokenAt? {offset line : Nat} {t : Token} (h : v.tokenAt? offset = some (line, t)) :
    v.lineAt? offset = some line ∧ t ∈ v.tokensOf line ∧ t.span.contains offset = true := by
  simp only [tokenAt?, Option.bind_eq_bind, Option.bind_eq_some_iff, Option.pure_def,
    Option.some.injEq, Prod.mk.injEq] at h
  obtain ⟨line', hline, t', hfind, rfl, rfl⟩ := h
  refine ⟨hline, List.mem_of_find?_eq_some hfind, ?_⟩
  exact List.find?_some (p := fun t : Token => t.span.contains offset) hfind

lemma mem_tokensOf_of_tokenAt? {offset line : Nat} {t : Token}
    (h : v.tokenAt? offset = some (line, t)) :
    t ∈ v.tokensOf line ∧ t.span.contains offset = true :=
  (of_tokenAt? h).2

/-- **What is found at an offset is the token of the text that the offset is in.** -/
lemma tokenAt?_eq_some_iff (hv : Lined.Exact v.source) {line offset : Nat} {t : Token} :
    v.tokenAt? offset = some (line, t) ↔ t ∈ v.tokensOf line ∧ t.span.contains offset = true := by
  refine ⟨mem_tokensOf_of_tokenAt?, ?_⟩
  rintro ⟨ht, hoffset⟩
  have hline : line < (Lined.lines v.source).length := lt_lineCount_of_mem_tokensOf ht
  have horder := tokensOf_inOrder hv hline
  obtain ⟨hstart, -, hstop⟩ := horder.bounds ht
  obtain ⟨hle, hlt⟩ := Span.contains_iff.mp hoffset
  have hlineAt : v.lineAt? offset = some line := by
    refine (hv.lineAt? offset).trans (Text.lineAt?_of_le hline (Nat.le_trans hstart hle) ?_ ?_)
    · exact Nat.le_of_lt (Nat.lt_of_lt_of_le hlt hstop)
    · intro later hlater _
      have hnext := Nat.le_trans (Text.lineStop_le_lineStart_succ hline)
        (Text.lineStart_mono hlater)
      omega
  rw [tokenAt?, hlineAt]
  simp [find?_of_inOrder horder ht hoffset]

lemma tokenAt?_of_mem (hv : Lined.Exact v.source) {t : Token} (ht : t ∈ v.tokens) {offset : Nat}
    (hoffset : t.span.contains offset = true) : ∃ line, v.tokenAt? offset = some (line, t) := by
  obtain ⟨line, -, hmem⟩ := List.mem_flatMap.mp ht
  exact ⟨line, (tokenAt?_eq_some_iff hv).mpr ⟨hmem, hoffset⟩⟩

end View
end PonyEditor
