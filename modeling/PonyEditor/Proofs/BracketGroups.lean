import Mathlib.Tactic.Lemma
import PonyEditor.Proofs.DocumentRuns
import PonyEditor.Proofs.Nesting
import PonyEditor.Proofs.TokenOrder
import PonyEditor.Proofs.TwoEndedWalks

/-!
# Groups of brackets in a document

The tokens of a document are in order, so those before and after a token are told from it by their
spans.  Looking back, spans are counted down from the ends of lines, and they are the same only in a
line that ends within the limit (`tokensBefore_eq`).  There, and at every opener, what is found at
an offset is the group of the token there among the brackets of its family (`bracketGroup_eq`).  The
laws of nested groups then hold of documents:

* the group is the same from every token in it (`bracketGroup_same_from_every_member`), but not past
  the limit (`bracketGroup_differs_past_limit`);
* closed groups of a family never cross (`closed_groups_never_cross`).

Past the limit spans are empty and no longer tell tokens apart.  The second law is therefore about
the places of tokens in the list of all tokens, and `groupPlaces` is the same group with places for
spans (`map_groupPlaces`, `closes_iff`).
-/

namespace PonyEditor

/-! ## Brackets of one family -/

namespace Bracket

/-- The part of a token in a family, if it is a bracket of that family. -/
def sideIn? (family : Family) (t : Token) : Option Side :=
  match t.kind.bracket? with
  | some (f, side) => if f = family then some side else none
  | none => none

lemma sideIn?_eq_some_iff {family : Family} {t : Token} {side : Side} :
    sideIn? family t = some side ↔ t.kind.bracket? = some (family, side) := by
  rw [sideIn?]
  split <;> simp_all

lemma ofFamily_eq (family : Family) (tokens : List Token) :
    ofFamily family tokens =
      tokens.filterMap fun t => (sideIn? family t).map fun side => (side, t.span) := by
  apply congrArg (List.filterMap · tokens)
  funext t
  rw [sideIn?]
  cases t.kind.bracket? with
  | none => rfl
  | some bracket =>
      by_cases hfamily : bracket.1 = family
      · simp [hfamily]
      · simp [hfamily]

lemma ofFamily_cons (family : Family) (t : Token) (tokens : List Token) :
    ofFamily family (t :: tokens) =
      ((sideIn? family t).map fun side => (side, t.span)).toList ++ ofFamily family tokens := by
  rw [ofFamily_eq, ofFamily_eq, List.filterMap_cons]
  cases sideIn? family t <;> rfl

lemma ofFamily_append_cons {family : Family} {t : Token} {side : Side}
    (ht : t.kind.bracket? = some (family, side)) (before after : List Token) :
    ofFamily family (before ++ t :: after) =
      ofFamily family before ++ (side, t.span) :: ofFamily family after := by
  simp [ofFamily_eq, sideIn?_eq_some_iff.mpr ht]

/-- A bracket of the family is a token of the text, with the brackets before and after it. -/
lemma exists_of_ofFamily_eq {family : Family} {tokens : List Token} {side : Side} {span : Span}
    {before after : List (Side × Span)}
    (h : ofFamily family tokens = before ++ (side, span) :: after) :
    ∃ xs t ys, tokens = xs ++ t :: ys ∧ t.kind.bracket? = some (family, side) ∧ t.span = span ∧
      ofFamily family xs = before ∧ ofFamily family ys = after := by
  simp only [ofFamily_eq] at h ⊢
  obtain ⟨xs, rest, rfl, hxs, hrest⟩ := List.filterMap_eq_append_iff.mp h
  obtain ⟨skipped, t, ys, rfl, hskipped, ht, hys⟩ := List.filterMap_eq_cons_iff.mp hrest
  obtain ⟨side', hside, heq⟩ := Option.map_eq_some_iff.mp ht
  obtain ⟨rfl, hspan⟩ := Prod.mk.inj heq
  refine ⟨xs ++ skipped, t, ys, by simp, sideIn?_eq_some_iff.mp hside, hspan, ?_, hys⟩
  rw [List.filterMap_append, hxs, List.filterMap_eq_nil_iff.mpr hskipped, List.append_nil]

/-! ### Places -/

lemma exists_split_of_getElem? {tokens : List Token} {place : Nat} {t : Token}
    (h : tokens[place]? = some t) :
    ∃ before after, tokens = before ++ t :: after ∧ before.length = place := by
  obtain ⟨hlt, rfl⟩ := List.getElem?_eq_some_iff.mp h
  refine ⟨tokens.take place, tokens.drop (place + 1), ?_, ?_⟩
  · rw [← List.drop_eq_getElem_cons hlt, List.take_append_drop]
  · rw [List.length_take, Nat.min_eq_left (Nat.le_of_lt hlt)]

/-- The brackets of one family among tokens, each as its part and place; the first token has place
`first`. -/
def places (family : Family) (first : Nat) (tokens : List Token) : List (Side × Nat) :=
  (tokens.zipIdx first).filterMap fun x => (sideIn? family x.1).map fun side => (side, x.2)

lemma places_cons (family : Family) (first : Nat) (t : Token) (tokens : List Token) :
    places family first (t :: tokens) =
      ((sideIn? family t).map fun side => (side, first)).toList ++
        places family (first + 1) tokens := by
  rw [places, places, List.zipIdx_cons, List.filterMap_cons]
  cases sideIn? family t <;> rfl

lemma places_append_cons {family : Family} {t : Token} {side : Side}
    (ht : t.kind.bracket? = some (family, side)) (first : Nat) (before after : List Token) :
    places family first (before ++ t :: after) =
      places family first before ++
        (side, first + before.length) :: places family (first + before.length + 1) after := by
  simp [places, List.zipIdx_append, sideIn?_eq_some_iff.mpr ht]

lemma mem_places {family : Family} {first : Nat} {tokens : List Token} {side : Side} {place : Nat} :
    (side, place) ∈ places family first tokens ↔
      ∃ t, first ≤ place ∧ tokens[place - first]? = some t ∧
        t.kind.bracket? = some (family, side) := by
  simp only [places, List.mem_filterMap, Prod.exists, List.mk_mem_zipIdx_iff_le_and_getElem?_sub,
    Option.map_eq_some_iff, Prod.mk.injEq, sideIn?_eq_some_iff]
  constructor
  · rintro ⟨t, place', ⟨hle, hget⟩, side', hside, rfl, rfl⟩
    exact ⟨t, hle, hget, hside⟩
  · rintro ⟨t, hle, hget, hside⟩
    exact ⟨t, place, ⟨hle, hget⟩, side, hside, rfl, rfl⟩

/-- Places grow from bracket to bracket. -/
lemma ordered_places (family : Family) (first : Nat) (tokens : List Token) :
    Ordered (places family first tokens) := by
  induction tokens generalizing first with
  | nil => exact List.Pairwise.nil
  | cons t tokens ih =>
      have hrest := ih (first + 1)
      rw [places_cons]
      cases sideIn? family t with
      | none => exact hrest
      | some side =>
          refine List.pairwise_cons.mpr ⟨?_, hrest⟩
          rintro ⟨side', place⟩ hlater
          obtain ⟨t', hle, -⟩ := mem_places.mp hlater
          exact hle

/-- With the spans of the tokens for their places, the brackets are the same. -/
lemma map_places {family : Family} {first : Nat} {tokens : List Token} {span? : Nat → Option Span}
    (h : ∀ n, n < tokens.length → span? (first + n) = tokens[n]?.map Token.span) :
    (places family first tokens).map (Prod.map id span?) =
      (ofFamily family tokens).map (Prod.map id some) := by
  induction tokens generalizing first with
  | nil => rfl
  | cons t tokens ih =>
      have hfirst : span? first = some t.span := h 0 (by simp)
      have hrest : ∀ n, n < tokens.length → span? (first + 1 + n) = tokens[n]?.map Token.span := by
        intro n hn
        rw [Nat.add_right_comm]
        exact h (n + 1) (by simpa using hn)
      have htail := ih hrest
      rw [places_cons, ofFamily_cons, List.map_append, List.map_append, htail]
      cases sideIn? family t with
      | none => rfl
      | some side => simp [hfirst]

end Bracket

/-! ## Looking back -/

namespace View

open PonyEditor.Bracket (sideIn? ofFamily places Family Side)

variable {σ : Type} [Lined σ] {v : View σ} {family : Family}

/-- Where a line ends, within the limit or past it. -/
def lineEnd (v : View σ) (line : Nat) : Nat :=
  (v.start? line).getD 0 + ((v.line? line).getD "").utf8ByteSize

/-- Whether the line that an offset is in ends within the limit. -/
def fitsAt (v : View σ) (offset : Nat) : Bool :=
  (v.lineAt? offset).all fun line => v.lineEnd line ≤ Offset.limit

/-- In a line that ends within the limit, spans counted down are those counted up. -/
lemma fromBack_walk {line : Nat} (h : v.lineEnd line ≤ Offset.limit) :
    (v.walk line).fromBack = (v.tokensOf line).reverse := by
  apply LineWalk.Exact.fromBack_eq
  rw [lineEnd] at h
  rw [walk]
  cases htext : v.line? line with
  | none => exact ⟨rfl, Nat.zero_le _⟩
  | some text =>
      cases hstart : v.start? line with
      | none => exact ⟨rfl, Nat.zero_le _⟩
      | some start =>
          rw [htext, hstart] at h
          exact LineWalk.exact_ofLine _ h

lemma lineEnd_of_lt (hv : Lined.Exact v.source) {line : Nat}
    (hline : line < (Lined.lines v.source).length) :
    v.lineEnd line = Text.lineStart (Lined.lines v.source) line +
      Text.width (Lined.lines v.source)[line].toList := by
  have hstart : v.start? line = some (Text.lineStart (Lined.lines v.source) line) :=
    (hv.start? line).trans (Text.start?_of_lt hline)
  have htext : v.line? line = some (Lined.lines v.source)[line] := List.getElem?_eq_getElem hline
  rw [lineEnd, hstart, htext, Option.getD_some, Option.getD_some, Text.utf8ByteSize_eq]

/-- A line ends within the limit if a later one starts before it. -/
lemma lineEnd_le_of_lt (hv : Lined.Exact v.source) {line later : Nat} (hlt : line < later)
    (hlater : later < v.lineCount)
    (hstart : Text.lineStart (Lined.lines v.source) later < Offset.limit) :
    v.lineEnd line ≤ Offset.limit := by
  have hline : line < (Lined.lines v.source).length := Nat.lt_trans hlt hlater
  have hstop := Nat.le_trans (Text.lineStop_le_lineStart_succ hline) (Text.lineStart_mono hlt)
  rw [Text.lineLength, Offset.add_cap, Offset.add, Offset.cap] at hstop
  rw [lineEnd_of_lt hv hline]
  omega

lemma fitsAt_of_tokenAt? {offset line : Nat} {t : Token}
    (h : v.tokenAt? offset = some (line, t)) :
    v.fitsAt offset = decide (v.lineEnd line ≤ Offset.limit) := by
  rw [fitsAt, (of_tokenAt? h).1, Option.all_some]

/-- In a text within the limit every line ends within it. -/
lemma fitsAt_of_width_le (hv : Lined.Exact v.source)
    (hlimit : Text.width (Text.unlines (Lined.lines v.source)).toList ≤ Offset.limit)
    (offset : Nat) : v.fitsAt offset = true := by
  rw [fitsAt, Option.all_eq_true]
  intro line _
  rw [decide_eq_true_eq]
  rcases Nat.lt_or_ge line (Lined.lines v.source).length with hline | hline
  · have hstart : Text.lineStart (Lined.lines v.source) line =
        Text.bytesBefore (Lined.lines v.source) line :=
      Option.some.inj ((Text.start?_of_lt hline).symm.trans
        (Text.start?_eq_bytesBefore hline hlimit))
    rw [lineEnd_of_lt hv hline, hstart]
    exact Nat.le_trans (Text.bytesBefore_add_le hline) hlimit
  · have hstart : v.start? line = none := (hv.start? line).trans (if_neg (Nat.not_lt.mpr hline))
    have htext : v.line? line = none := List.getElem?_eq_none hline
    rw [lineEnd, hstart, htext]
    exact Nat.zero_le _

/-- Walking back from a line that starts before the limit meets the tokens of the lines before. -/
lemma reverse_flatMap_fromBack (hv : Lined.Exact v.source) {line : Nat} (hline : line < v.lineCount)
    (hstart : Text.lineStart (Lined.lines v.source) line < Offset.limit) :
    ((List.range line).reverse.flatMap fun i => (v.walk i).fromBack).reverse =
      (List.range' 0 line).flatMap v.tokensOf := by
  rw [← List.range_eq_range', List.reverse_flatMap, List.reverse_reverse]
  apply List.flatMap_congr
  intro i hi
  have hfits := lineEnd_le_of_lt hv (List.mem_range.mp hi) hline hstart
  rw [Function.comp_apply, fromBack_walk hfits, List.reverse_reverse]

/-- The tokens before one with a byte are those of the lines before, and those before it on its own
line. -/
lemma before_eq (hv : Lined.Exact v.source) {before after same later : List Token} {t : Token}
    (hsplit : v.tokens = before ++ t :: after) {line : Nat} (hline : line < v.lineCount)
    (hsame : v.tokensOf line = same ++ t :: later) (hbyte : t.span.start < t.span.stop) :
    before = (List.range' 0 line).flatMap v.tokensOf ++ same := by
  have horder := tokens_inOrder hv
  have hlines := tokens_eq_append (v := v) line 1 hline
  rw [List.range'_one, List.flatMap_singleton, hsame, List.append_assoc, List.cons_append,
    ← List.append_assoc] at hlines
  -- either way to list the tokens, those that end before `t` starts are the ones listed before it
  calc before = v.tokens.filter fun s => s.span.stop ≤ t.span.start := by
        rw [hsplit] at horder ⊢
        exact (horder.filter_before hbyte).symm
    _ = (List.range' 0 line).flatMap v.tokensOf ++ same := by
        rw [hlines] at horder ⊢
        exact horder.filter_before hbyte

/-- **Looking back from a token finds the tokens before it**, if its line ends within the limit.
The lines before it then do too. -/
lemma tokensBefore_eq (hv : Lined.Exact v.source) {before after : List Token} {t : Token}
    (hsplit : v.tokens = before ++ t :: after) {line : Nat} (ht : t ∈ v.tokensOf line)
    (hbyte : t.span.start < t.span.stop) (hfits : v.lineEnd line ≤ Offset.limit) :
    v.tokensBefore line t = before := by
  have hline : line < v.lineCount := lt_lineCount_of_mem_tokensOf ht
  have horder := tokensOf_inOrder hv hline
  have hstart : Text.lineStart (Lined.lines v.source) line < Offset.limit := by
    obtain ⟨hstart, -, hstop⟩ := horder.bounds ht
    have hlimit := Offset.add_le (Text.lineStart (Lined.lines v.source) line)
      (Text.lineLength (Lined.lines v.source)[line])
    omega
  obtain ⟨same, later, hsame⟩ := List.append_of_mem ht
  have hfilter : (v.tokensOf line).filter (fun s => s.span.stop ≤ t.span.start) = same := by
    rw [hsame] at horder ⊢
    exact horder.filter_before hbyte
  rw [tokensBefore, List.reverse_append, reverse_flatMap_fromBack hv hline hstart,
    fromBack_walk hfits, List.filter_reverse, List.reverse_reverse, hfilter,
    before_eq hv hsplit hline hsame hbyte]

/-! ## The group at an offset -/

/-- What is found at an offset, by what looking back meets. -/
lemma bracketGroup_of_tokenAt? (hv : Lined.Exact v.source) {before after : List Token} {t : Token}
    (hsplit : v.tokens = before ++ t :: after) {offset line : Nat}
    (htoken : v.tokenAt? offset = some (line, t)) {side : Side}
    (hside : t.kind.bracket? = some (family, side)) :
    v.bracketGroup offset =
      Bracket.group (ofFamily family (v.tokensBefore line t)) (side, t.span)
        (ofFamily family after) := by
  have hbyte := Span.start_lt_stop_of_contains (mem_tokensOf_of_tokenAt? htoken).2
  have horder := tokens_inOrder hv
  rw [hsplit] at horder
  simp only [bracketGroup, htoken, hside, hsplit, horder.filter_after hbyte]
  rfl

/-- **What is found at an offset is the group of the token there**, among the brackets of its
family before and after it.  A token that is no opener looks back, and for that its line has to end
within the limit. -/
lemma bracketGroup_eq (hv : Lined.Exact v.source) {before after : List Token} {t : Token}
    (hsplit : v.tokens = before ++ t :: after) {side : Side}
    (hside : t.kind.bracket? = some (family, side)) {offset : Nat}
    (hoffset : t.span.contains offset = true) (hfits : side = .opener ∨ v.fitsAt offset = true) :
    v.bracketGroup offset =
      Bracket.group (ofFamily family before) (side, t.span) (ofFamily family after) := by
  obtain ⟨line, htoken⟩ := tokenAt?_of_mem hv (t := t) (by simp [hsplit]) hoffset
  rw [bracketGroup_of_tokenAt? hv hsplit htoken hside]
  rcases hfits with rfl | hfits
  · rfl
  · rw [fitsAt_of_tokenAt? htoken, decide_eq_true_eq] at hfits
    rw [tokensBefore_eq hv hsplit (mem_tokensOf_of_tokenAt? htoken).1
      (Span.start_lt_stop_of_contains hoffset) hfits]

lemma span_mem_bracketGroup (hv : Lined.Exact v.source) {t : Token} (ht : t ∈ v.tokens)
    {side : Side} (hside : t.kind.bracket? = some (family, side)) {offset : Nat}
    (hoffset : t.span.contains offset = true) : t.span ∈ v.bracketGroup offset := by
  obtain ⟨before, after, hsplit⟩ := List.append_of_mem ht
  obtain ⟨line, htoken⟩ := tokenAt?_of_mem hv ht hoffset
  rw [bracketGroup_of_tokenAt? hv hsplit htoken hside]
  exact Bracket.cursor_mem_group _ _ _

/-- **A group is that of each of its members**, and each is a bracket of its family. -/
lemma bracketGroup_of_mem (hv : Lined.Exact v.source) {t : Token} (ht : t ∈ v.tokens) {side : Side}
    (hside : t.kind.bracket? = some (family, side)) {offset : Nat}
    (hoffset : t.span.contains offset = true) (hfits : side = .opener ∨ v.fitsAt offset = true)
    {span : Span} (hspan : span ∈ v.bracketGroup offset) :
    ∃ t' ∈ v.tokens, t'.span = span ∧ ∃ side', t'.kind.bracket? = some (family, side') ∧
      ∀ offset', span.contains offset' = true → side' = .opener ∨ v.fitsAt offset' = true →
        v.bracketGroup offset' = v.bracketGroup offset := by
  obtain ⟨before, after, hsplit⟩ := List.append_of_mem ht
  rw [bracketGroup_eq hv hsplit hside hoffset hfits] at hspan ⊢
  obtain ⟨before', side', after', hmember, hgroup⟩ := Bracket.exists_group_eq_of_mem hspan
  rw [← Bracket.ofFamily_append_cons hside, ← hsplit] at hmember
  obtain ⟨xs, t', ys, hsplit', hside', rfl, rfl, rfl⟩ := Bracket.exists_of_ofFamily_eq hmember
  refine ⟨t', by simp [hsplit'], rfl, side', hside', ?_⟩
  intro offset' hoffset' hfits'
  rw [bracketGroup_eq hv hsplit' hside' hoffset' hfits', hgroup]

/-- Brackets of a family are of one group if what is between them is balanced: each finds the
other. -/
lemma mem_bracketGroup_of_balanced (hv : Lined.Exact v.source) {before between after : List Token}
    {s t : Token} (hsplit : v.tokens = before ++ s :: (between ++ t :: after)) {side side' : Side}
    (hs : s.kind.bracket? = some (family, side)) (ht : t.kind.bracket? = some (family, side'))
    (hside : side ≠ .closer) (hside' : side' ≠ .opener)
    (hlevel : Bracket.level 0 (ofFamily family between) = some 0) {offset offset' : Nat}
    (hoffset : s.span.contains offset = true) (hoffset' : t.span.contains offset' = true) :
    t.span ∈ v.bracketGroup offset ∧
      (v.fitsAt offset' = true → s.span ∈ v.bracketGroup offset') := by
  have hgroup (known : List (Side × Span)) :
      Bracket.group (known ++ (side, s.span) :: ofFamily family between) (side', t.span)
          (ofFamily family after) =
        Bracket.group known (side, s.span)
          (ofFamily family between ++ (side', t.span) :: ofFamily family after) :=
    Bracket.group_append _ _ hside hside' hlevel
  constructor
  · obtain ⟨line, htoken⟩ := tokenAt?_of_mem hv (t := s) (by simp [hsplit]) hoffset
    rw [bracketGroup_of_tokenAt? hv hsplit htoken hs, Bracket.ofFamily_append_cons ht, ← hgroup]
    exact Bracket.cursor_mem_group _ _ _
  · intro hfits
    have hsplit' : v.tokens = (before ++ s :: between) ++ t :: after := by simp [hsplit]
    rw [bracketGroup_eq hv hsplit' ht hoffset' (.inr hfits), Bracket.ofFamily_append_cons hs,
      hgroup]
    exact Bracket.cursor_mem_group _ _ _

/-! ## The group with places -/

/-- The places of the group of the token at a place. -/
def groupPlaces (v : View σ) (place : Nat) : List Nat :=
  match v.tokens[place]? with
  | none => []
  | some t =>
    match t.kind.bracket? with
    | none => []
    | some (family, side) =>
      Bracket.group (places family 0 (v.tokens.take place)) (side, place)
        (places family (place + 1) (v.tokens.drop (place + 1)))

lemma groupPlaces_eq {before after : List Token} {t : Token}
    (hsplit : v.tokens = before ++ t :: after) {side : Side}
    (hside : t.kind.bracket? = some (family, side)) :
    v.groupPlaces before.length = Bracket.group (places family 0 before) (side, before.length)
      (places family (before.length + 1) after) := by
  have hget : v.tokens[before.length]? = some t := by simp [hsplit]
  have htake : v.tokens.take before.length = before := by simp [hsplit]
  have hdrop : v.tokens.drop (before.length + 1) = after := by simp [hsplit]
  simp only [groupPlaces, hget, hside, htake, hdrop]

/-- The group found at an offset inside a token has the spans of the group of its place. -/
lemma map_groupPlaces (hv : Lined.Exact v.source) {place : Nat} {t : Token}
    (ht : v.tokens[place]? = some t) {offset : Nat} (hoffset : t.span.contains offset = true)
    (hfits : ∀ family side, t.kind.bracket? = some (family, side) →
      side = .opener ∨ v.fitsAt offset = true) :
    (v.groupPlaces place).map (fun k => v.tokens[k]?.map Token.span) =
      (v.bracketGroup offset).map some := by
  obtain ⟨before, after, hsplit, rfl⟩ := Bracket.exists_split_of_getElem? ht
  obtain ⟨line, htoken⟩ := tokenAt?_of_mem hv (List.mem_of_getElem? ht) hoffset
  cases hbracket : t.kind.bracket? with
  | none => simp only [groupPlaces, bracketGroup, ht, htoken, hbracket, List.map_nil]
  | some bracket =>
      obtain ⟨family, side⟩ := bracket
      rw [groupPlaces_eq hsplit hbracket,
        bracketGroup_eq hv hsplit hbracket hoffset (hfits family side hbracket),
        ← Bracket.group_map, ← Bracket.group_map, Bracket.map_places, Bracket.map_places, ht]
      · rfl
      · intro n hn
        rw [hsplit, List.getElem?_append_right (by omega)]
        have hsub : before.length + 1 + n - before.length = n + 1 := by omega
        rw [hsub, List.getElem?_cons_succ]
      · intro n hn
        rw [hsplit, Nat.zero_add, List.getElem?_append_left hn]

/-! ## Closed groups -/

/-- The token at one place opens a group of the family, and the scan from it ends at the other
place, in a closer. -/
structure Closes (v : View σ) (family : Family) (opener closer : Nat) : Prop where
  opens : ∃ t, v.tokens[opener]? = some t ∧ t.kind.bracket? = some (family, .opener)
  closes : ∃ t, v.tokens[closer]? = some t ∧ t.kind.bracket? = some (family, .closer)
  ends : (v.groupPlaces opener).getLast? = some closer

namespace Closes

variable {i j p q : Nat}

/-- The brackets after the opener close its group. -/
lemma closed (h : v.Closes family i p) {before after : List Token} {t : Token}
    (hsplit : v.tokens = before ++ t :: after) (hi : before.length = i)
    (ht : t.kind.bracket? = some (family, .opener)) :
    Bracket.Closed (places family (i + 1) after) p := by
  obtain ⟨-, ⟨closer, hcloser, hbracket⟩, hlast⟩ := h
  subst hi
  rw [groupPlaces_eq hsplit ht] at hlast
  apply Bracket.closed_of_getLast? hlast
  intro side hmem
  have hplaces := Bracket.places_append_cons ht 0 before after
  rw [← hsplit, Nat.zero_add] at hplaces
  have hall : (side, p) ∈ places family 0 v.tokens := by
    rw [hplaces]
    exact List.mem_append_right _ hmem
  obtain ⟨t', -, ht', hbracket'⟩ := Bracket.mem_places.mp hall
  rw [Nat.sub_zero, hcloser] at ht'
  obtain rfl := Option.some.inj ht'
  rw [hbracket] at hbracket'
  exact (Prod.mk.inj (Option.some.inj hbracket')).2.symm

/-- A closed group lies between its opener and its closer. -/
lemma mem_bounds (h : v.Closes family i p) {k : Nat} (hk : k ∈ v.groupPlaces i) :
    i ≤ k ∧ k ≤ p := by
  obtain ⟨t, hget, ht⟩ := h.opens
  obtain ⟨before, after, hsplit, hi⟩ := Bracket.exists_split_of_getElem? hget
  have hclosed := h.closed hsplit hi ht
  subst hi
  rw [groupPlaces_eq hsplit ht] at hk
  have hordered := Bracket.ordered_places family 0 v.tokens
  rw [hsplit, Bracket.places_append_cons ht, Nat.zero_add] at hordered
  exact Bracket.Closed.bounds (List.pairwise_append.mp hordered).2.1 hclosed hk

lemma closer_mem (h : v.Closes family i p) : p ∈ v.groupPlaces i := List.mem_of_getLast? h.ends

lemma opener_lt_closer (h : v.Closes family i p) : i < p := by
  obtain ⟨t, hget, ht⟩ := h.opens
  obtain ⟨t', hget', ht'⟩ := h.closes
  have hne : i ≠ p := by
    rintro rfl
    rw [hget] at hget'
    obtain rfl := Option.some.inj hget'
    rw [ht] at ht'
    exact nomatch ht'
  exact Nat.lt_of_le_of_ne (h.mem_bounds h.closer_mem).1 hne

/-- **No member of the group of an earlier opener is inside a closed group.** -/
lemma outside (hi : v.Closes family i p) (hj : v.Closes family j q) (hij : i < j) {k : Nat}
    (hk : k ∈ v.groupPlaces i) : k < j ∨ q < k := by
  obtain ⟨s, hgeti, hs⟩ := hi.opens
  obtain ⟨t, hgetj, ht⟩ := hj.opens
  obtain ⟨before, after, hsplit, hj'⟩ := Bracket.exists_split_of_getElem? hgetj
  have hclosed := hj.closed hsplit hj' ht
  rw [hsplit, List.getElem?_append_left (by omega)] at hgeti
  obtain ⟨first, between, rfl, hi'⟩ := Bracket.exists_split_of_getElem? hgeti
  have hsplit' : v.tokens = first ++ s :: (between ++ t :: after) := by simp [hsplit]
  have hplace : i + 1 + between.length = j := by
    simp only [List.length_append, List.length_cons] at hj'
    omega
  have hordered := Bracket.ordered_places family 0 v.tokens
  subst hi'
  rw [groupPlaces_eq hsplit' hs, Bracket.places_append_cons ht, hplace] at hk
  rw [hsplit', Bracket.places_append_cons hs, Nat.zero_add, Bracket.places_append_cons ht, hplace]
    at hordered
  exact Bracket.Closed.outside (List.pairwise_append.mp hordered).2.1 hclosed hk

/-- Closed groups share no token. -/
lemma disjoint (hi : v.Closes family i p) (hj : v.Closes family j q) (hij : i < j) {k : Nat}
    (hk : k ∈ v.groupPlaces i) : k ∉ v.groupPlaces j := by
  intro hk'
  obtain ⟨hle, hge⟩ := hj.mem_bounds hk'
  have hout := hi.outside hj hij hk
  omega

end Closes

/-- A token with a byte is the only one with its span. -/
lemma eq_of_span_eq (hv : Lined.Exact v.source) {k l : Nat} {s t : Token}
    (hs : v.tokens[k]? = some s) (ht : v.tokens[l]? = some t)
    (hbyte : t.span.start < t.span.stop) (hspan : s.span = t.span) : k = l := by
  rcases Nat.lt_trichotomy k l with hlt | heq | hlt
  · have hle := stop_le_start_of_lt hv hs ht hlt
    rw [hspan] at hle
    omega
  · exact heq
  · have hle := stop_le_start_of_lt hv ht hs hlt
    rw [hspan] at hle
    omega

/-- **A group is closed when what is found inside its opener ends in a closer.** -/
lemma closes_iff (hv : Lined.Exact v.source) {k l : Nat} {s t : Token}
    (hs : v.tokens[k]? = some s) (hopens : s.kind.bracket? = some (family, .opener))
    (ht : v.tokens[l]? = some t) (hcloses : t.kind.bracket? = some (family, .closer))
    (hbyte : t.span.start < t.span.stop) {offset : Nat} (hoffset : s.span.contains offset = true) :
    v.Closes family k l ↔ (v.bracketGroup offset).getLast? = some t.span := by
  have hopener : ∀ family' side, s.kind.bracket? = some (family', side) →
      side = .opener ∨ v.fitsAt offset = true := by
    intro family' side hside
    rw [hopens] at hside
    exact .inl (Prod.mk.inj (Option.some.inj hside)).2.symm
  have hlast := congrArg List.getLast? (map_groupPlaces hv hs hoffset hopener)
  rw [List.getLast?_map, List.getLast?_map] at hlast
  constructor
  · rintro ⟨-, -, hends⟩
    rw [hends, Option.map_some, ht, Option.map_some] at hlast
    obtain ⟨span, hspan, heq⟩ := Option.map_eq_some_iff.mp hlast.symm
    rw [hspan, heq]
  · intro hends
    rw [hends, Option.map_some] at hlast
    obtain ⟨place, hplace, hspan⟩ := Option.map_eq_some_iff.mp hlast
    obtain ⟨t', ht', hspan'⟩ := Option.map_eq_some_iff.mp hspan
    obtain rfl := eq_of_span_eq hv ht' ht hbyte hspan'
    exact ⟨⟨s, hs, hopens⟩, ⟨t, ht, hcloses⟩, hplace⟩

end View

/-! ## Past the limit -/

namespace Document

open PonyEditor.Bracket (Family Side)

/-- A line of slashes, which is a comment, and under it a pair of parentheses and a name. -/
def underSlashes (width : Nat) : Document :=
  ofText (Text.unlines [String.ofList (List.replicate width '/'), "()x"])

variable {width : Nat}

lemma lines_underSlashes (width : Nat) : (underSlashes width).buffer.lines =
    [String.ofList (List.replicate width '/'), "()x"] := by
  apply Text.lines_unlines (List.cons_ne_nil _ _)
  intro line hline
  rcases List.mem_cons.mp hline with rfl | hline
  · rw [String.toList_ofList]
    intro hbreak
    exact absurd (List.eq_of_mem_replicate hbreak) (by decide)
  · rw [List.mem_singleton.mp hline]
    decide

/-- Two slashes or more are one comment, with nothing open after it. -/
lemma scan_slashes (hwidth : 2 ≤ width) :
    Mode.normal.scan (List.replicate width '/') =
      ([⟨.comment, List.replicate width '/'⟩], .normal) := by
  obtain ⟨n, rfl⟩ := Nat.exists_eq_add_of_le' hwidth
  have hread : Mode.normal.read '/' ('/' :: List.replicate n '/') =
      ⟨.comment, (List.replicate n '/').length + 1, .normal⟩ := rfl
  rw [List.replicate_succ, List.replicate_succ, Mode.scan_cons, hread]
  simp [Mode.scan_nil]

lemma width_slashes (width : Nat) : Text.width (List.replicate width '/') = width := by
  have hsize : '/'.utf8Size = 1 := rfl
  induction width with
  | zero => rfl
  | succ n ih => rw [List.replicate_succ, Text.width_cons, ih, hsize, Nat.add_comm]

/-- With that many slashes the second line starts two bytes before the limit, and ends past it: the
comment of the first line, from both its ends, and the walk over the second line. -/
lemma walk_underSlashes (hwidth : width = 4294967292) :
    (underSlashes width).view.tokensOf 0 = [⟨.comment, ⟨0, width⟩⟩] ∧
      ((underSlashes width).view.walk 0).fromBack = [⟨.comment, ⟨0, width⟩⟩] ∧
      (underSlashes width).view.walk 1 = .ofLine "()x" .normal 4294967293 := by
  have hd : (underSlashes width).InStep := inStep_ofText _
  have hlines := lines_underSlashes width
  have hlimit : width + 1 ≤ Offset.limit := by rw [hwidth]; decide
  have hlong : 2 ≤ width := by omega
  have hscan := scan_slashes hlong
  have hfirst := hd.walk_eq (i := 0) (congrArg (·[0]?) hlines)
  have hsecond := hd.walk_eq (i := 1) (congrArg (·[1]?) hlines)
  have htokens : (underSlashes width).view.tokensOf 0 = [⟨.comment, ⟨0, width⟩⟩] := by
    have hlexemes : Mode.normal.lexemes (String.ofList (List.replicate width '/')) =
        [⟨.comment, List.replicate width '/'⟩] := by
      rw [Mode.lexemes, String.toList_ofList, hscan]
    have hstop : Offset.add 0 width = width := by
      rw [Offset.add_of_le (by omega), Nat.zero_add]
    simp only [View.tokensOf, hfirst, LineWalk.toList, LineWalk.ofLine, List.take_zero,
      List.foldl_nil, hlexemes, Text.lineStart, Token.ofLexemes, Lexeme.width, width_slashes,
      Span.ofLength, hstop]
  refine ⟨htokens, ?_, ?_⟩
  · have hexact : ((underSlashes width).view.walk 0).Exact := by
      rw [hfirst]
      apply LineWalk.exact_ofLine
      rw [Text.utf8ByteSize_eq, String.toList_ofList, width_slashes]
      change 0 + width ≤ _
      omega
    rw [hexact.fromBack_eq]
    exact congrArg List.reverse htokens
  · have hlength : Text.lineLength (String.ofList (List.replicate width '/')) = width := by
      rw [Text.lineLength, String.toList_ofList, width_slashes, Offset.cap_of_le (by omega)]
    have hstart : Text.lineStart (underSlashes width).buffer.lines 1 = 4294967293 := by
      rw [hlines]
      change Offset.add (Offset.add 0 (Text.lineLength _)) 1 = _
      rw [hlength, Offset.add_add, Offset.add_of_le (by omega), Nat.zero_add, hwidth]
    have hexit : Mode.normal.exit (String.ofList (List.replicate width '/')) = .normal := by
      rw [Mode.exit, ← Mode.scan_snd, String.toList_ofList, hscan]
    rw [hsecond, hstart, hlines]
    simp only [List.take_succ_cons, List.take_zero, List.foldl_cons, List.foldl_nil, hexit]

lemma tokens_underSlashes (hwidth : width = 4294967292) :
    (underSlashes width).view.tokens =
      [⟨.comment, ⟨0, width⟩⟩, ⟨.lparen, ⟨4294967293, 4294967294⟩⟩,
        ⟨.rparen, ⟨4294967294, 4294967295⟩⟩, ⟨.valueName, ⟨4294967295, 4294967295⟩⟩] := by
  obtain ⟨hfirst, -, hsecond⟩ := walk_underSlashes hwidth
  have hcount : (underSlashes width).view.lineCount = 2 :=
    congrArg List.length (lines_underSlashes width)
  have hline : (LineWalk.ofLine "()x" .normal 4294967293).toList =
      [⟨.lparen, ⟨4294967293, 4294967294⟩⟩, ⟨.rparen, ⟨4294967294, 4294967295⟩⟩,
        ⟨.valueName, ⟨4294967295, 4294967295⟩⟩] := by
    decide +kernel
  have hrange : List.range 2 = [0, 1] := rfl
  rw [View.tokens, hcount, hrange, List.flatMap_cons, List.flatMap_singleton, hfirst,
    View.tokensOf, hsecond, hline, List.singleton_append]

lemma tokenAt?_underSlashes (hwidth : width = 4294967292) :
    (underSlashes width).view.tokenAt? 4294967294 =
      some (1, ⟨.rparen, ⟨4294967294, 4294967295⟩⟩) := by
  obtain ⟨-, -, hsecond⟩ := walk_underSlashes hwidth
  have hmem : ⟨.rparen, ⟨4294967294, 4294967295⟩⟩ ∈ (underSlashes width).view.tokensOf 1 := by
    rw [View.tokensOf, hsecond]
    decide +kernel
  exact (View.tokenAt?_eq_some_iff (inStep_ofText _).exact).mpr ⟨hmem, by decide⟩

/-- **The opener finds its closer, but the closer only itself.**  Counted down from the limit, the
spans of its line lie one byte too low: the closer is met before the opener, as the end of another
group. -/
lemma bracketGroup_underSlashes (hwidth : width = 4294967292) :
    (underSlashes width).bracketGroup 4294967293 =
        [⟨4294967293, 4294967294⟩, ⟨4294967294, 4294967295⟩] ∧
      (underSlashes width).bracketGroup 4294967294 = [⟨4294967294, 4294967295⟩] := by
  have hd : (underSlashes width).InStep := inStep_ofText _
  have htokens := tokens_underSlashes hwidth
  constructor
  · have hinside : (⟨4294967293, 4294967294⟩ : Span).contains 4294967293 = true := by decide
    have hsplit : (underSlashes width).view.tokens = [_] ++ _ :: _ := htokens
    exact View.bracketGroup_eq hd.exact hsplit rfl hinside (.inl rfl)
  · obtain ⟨-, hfirst, hsecond⟩ := walk_underSlashes hwidth
    have hback : (LineWalk.ofLine "()x" .normal 4294967293).fromBack =
        [⟨.valueName, ⟨4294967294, 4294967295⟩⟩, ⟨.rparen, ⟨4294967293, 4294967294⟩⟩,
          ⟨.lparen, ⟨4294967292, 4294967293⟩⟩] := by
      decide +kernel
    have hbefore : (underSlashes width).view.tokensBefore 1
        ⟨.rparen, ⟨4294967294, 4294967295⟩⟩ =
        [⟨.comment, ⟨0, width⟩⟩, ⟨.lparen, ⟨4294967292, 4294967293⟩⟩,
          ⟨.rparen, ⟨4294967293, 4294967294⟩⟩] := by
      have hrange : (List.range 1).reverse = [0] := rfl
      simp only [View.tokensBefore, hsecond, hback, hrange, List.flatMap_singleton, hfirst]
      rfl
    have hsplit : (underSlashes width).view.tokens = [_, _] ++ _ :: _ := htokens
    have hgroup := View.bracketGroup_of_tokenAt? hd.exact hsplit (tokenAt?_underSlashes hwidth) rfl
    rw [hbefore] at hgroup
    exact hgroup

end Document

/-! ## The laws for documents -/

namespace Document

open PonyEditor.Bracket (Family Side)

/-- **Matching gives the same answer from every member.**  At an offset inside a bracket of a
document the group found holds that bracket.  If the bracket is an opener, or its line ends within
the limit, all of the group are brackets of the same family, and the same group is found at every
offset inside any of them that is an opener or whose line ends within the limit.  Nothing is left
out: two brackets of a family, the first no closer and the second no opener, find each other if what
is between them is balanced and the line of the second ends within the limit.  In a text within the
limit all lines do. -/
theorem bracketGroup_same_from_every_member (text : String) (calls : List Call) (family : Family) :
    (∀ t ∈ ((ofText text).run calls).view.tokens, ∀ side,
      t.kind.bracket? = some (family, side) → ∀ offset, t.span.contains offset = true →
      t.span ∈ ((ofText text).run calls).bracketGroup offset ∧
      (side = .opener ∨ ((ofText text).run calls).view.fitsAt offset = true →
        ∀ span ∈ ((ofText text).run calls).bracketGroup offset,
          ∃ t' ∈ ((ofText text).run calls).view.tokens, t'.span = span ∧
            ∃ side', t'.kind.bracket? = some (family, side') ∧
              ∀ offset', span.contains offset' = true →
                side' = .opener ∨ ((ofText text).run calls).view.fitsAt offset' = true →
                ((ofText text).run calls).bracketGroup offset' =
                  ((ofText text).run calls).bracketGroup offset)) ∧
    (∀ before s between t after side side',
      ((ofText text).run calls).view.tokens = before ++ s :: (between ++ t :: after) →
      s.kind.bracket? = some (family, side) → t.kind.bracket? = some (family, side') →
      side ≠ .closer → side' ≠ .opener →
      Bracket.level 0 (Bracket.ofFamily family between) = some 0 →
      ∀ offset offset', s.span.contains offset = true → t.span.contains offset' = true →
        t.span ∈ ((ofText text).run calls).bracketGroup offset ∧
          (((ofText text).run calls).view.fitsAt offset' = true →
            s.span ∈ ((ofText text).run calls).bracketGroup offset')) ∧
    (((ofText text).run calls).text.utf8ByteSize ≤ Offset.limit →
      ∀ offset, ((ofText text).run calls).view.fitsAt offset = true) := by
  obtain ⟨hd, -⟩ := run_spec (inStep_ofText text) calls
  generalize (ofText text).run calls = d at hd
  refine ⟨?_, ?_, ?_⟩
  · intro t ht side hside offset hoffset
    refine ⟨View.span_mem_bracketGroup hd.exact ht hside hoffset, ?_⟩
    intro hfits span hspan
    exact View.bracketGroup_of_mem hd.exact ht hside hoffset hfits hspan
  · intro before s between t after side side' hsplit hs ht hside hside' hlevel offset offset'
      hoffset hoffset'
    exact View.mem_bracketGroup_of_balanced hd.exact hsplit hs ht hside hside' hlevel hoffset
      hoffset'
  · intro hlimit offset
    rw [Text.utf8ByteSize_eq] at hlimit
    exact View.fitsAt_of_width_le hd.exact hlimit offset

/-- A choice whose second branch holds another one on a line of its own: from the last byte of
`end` and from the middle of `else` the group is the one found at `if`. -/
theorem bracketGroup_same_from_else_and_end :
    let d := (ofText "if a then (b)\nelse c end").run
      [.replace ⟨1, 1, ["if c then d end"]⟩]
    d.bracketGroup 0 = [⟨0, 2⟩, ⟨5, 9⟩, ⟨30, 34⟩, ⟨37, 40⟩] ∧
    d.bracketGroup 32 = d.bracketGroup 0 ∧ d.bracketGroup 39 = d.bracketGroup 0 := by
  intro d
  have hgroup : d.bracketGroup 0 = [⟨0, 2⟩, ⟨5, 9⟩, ⟨30, 34⟩, ⟨37, 40⟩] := by decide +kernel
  have hif : (⟨.kwIf, ⟨0, 2⟩⟩ : Token) ∈ d.view.tokens := by decide +kernel
  obtain ⟨hmembers, -, hfits⟩ := bracketGroup_same_from_every_member "if a then (b)\nelse c end"
    [.replace ⟨1, 1, ["if c then d end"]⟩] .block
  obtain ⟨-, hsame⟩ := hmembers ⟨.kwIf, ⟨0, 2⟩⟩ hif .opener rfl 0 rfl
  have hlimit : d.text.utf8ByteSize ≤ Offset.limit := by decide +kernel
  have hsame' (span : Span) (hspan : span ∈ d.bracketGroup 0) (offset : Nat)
      (hoffset : span.contains offset = true) : d.bracketGroup offset = d.bracketGroup 0 := by
    obtain ⟨_, _, _, _, _, hall⟩ := hsame (.inl rfl) span hspan
    exact hall offset hoffset (.inr (hfits hlimit offset))
  refine ⟨hgroup, ?_, ?_⟩
  · exact hsame' ⟨30, 34⟩ (by rw [hgroup]; decide) 32 rfl
  · exact hsame' ⟨37, 40⟩ (by rw [hgroup]; decide) 39 rfl

/-- The limit on the lines is needed.  In a text of one byte more than the limit, the group found at
the opener is closed, but at its closer another one is found. -/
theorem bracketGroup_differs_past_limit :
    ⟨.lparen, ⟨4294967293, 4294967294⟩⟩ ∈ (underSlashes 4294967292).view.tokens ∧
    ⟨.rparen, ⟨4294967294, 4294967295⟩⟩ ∈ (underSlashes 4294967292).view.tokens ∧
    (underSlashes 4294967292).bracketGroup 4294967293 =
      [⟨4294967293, 4294967294⟩, ⟨4294967294, 4294967295⟩] ∧
    (underSlashes 4294967292).bracketGroup 4294967294 = [⟨4294967294, 4294967295⟩] := by
  have hwidth : 4294967292 = 4294967292 := rfl
  obtain ⟨hopener, hcloser⟩ := bracketGroup_underSlashes hwidth
  refine ⟨?_, ?_, hopener, hcloser⟩
  · simp [tokens_underSlashes hwidth]
  · simp [tokens_underSlashes hwidth]

/-- **Closed groups never cross.**  Of two openers of a family whose groups end in a closer, the
closers are different, the groups share no token, and the stretch from opener to closer of one is
before that of the other or strictly inside it.  Places follow the bytes of the text.  What is found
at an offset inside a token is the group of its place, for an opener always and for another bracket
if its line ends within the limit, and a group is closed when what is found inside its opener ends
in a closer. -/
theorem closed_groups_never_cross (text : String) (calls : List Call) (family : Family)
    {i p j q : Nat} (hi : ((ofText text).run calls).view.Closes family i p)
    (hj : ((ofText text).run calls).view.Closes family j q) (hne : i ≠ j) :
    p ≠ q ∧
    (∀ k ∈ ((ofText text).run calls).view.groupPlaces i,
      k ∉ ((ofText text).run calls).view.groupPlaces j) ∧
    (i < p ∧ p < j ∧ j < q ∨ j < q ∧ q < i ∧ i < p ∨
      i < j ∧ j < q ∧ q < p ∨ j < i ∧ i < p ∧ p < q) ∧
    (∀ (k l : Nat) (s t : Token), ((ofText text).run calls).view.tokens[k]? = some s →
      ((ofText text).run calls).view.tokens[l]? = some t → k < l → s.span.stop ≤ t.span.start) ∧
    (∀ k t offset, ((ofText text).run calls).view.tokens[k]? = some t →
      t.span.contains offset = true →
      (∀ family' side, t.kind.bracket? = some (family', side) →
        side = .opener ∨ ((ofText text).run calls).view.fitsAt offset = true) →
      (((ofText text).run calls).bracketGroup offset).map some =
        (((ofText text).run calls).view.groupPlaces k).map fun place =>
          ((ofText text).run calls).view.tokens[place]?.map Token.span) ∧
    ∀ k l s t offset, ((ofText text).run calls).view.tokens[k]? = some s →
      s.kind.bracket? = some (family, .opener) → s.span.contains offset = true →
      ((ofText text).run calls).view.tokens[l]? = some t →
      t.kind.bracket? = some (family, .closer) → t.span.start < t.span.stop →
      (((ofText text).run calls).view.Closes family k l ↔
        (((ofText text).run calls).bracketGroup offset).getLast? = some t.span) := by
  obtain ⟨hd, -⟩ := run_spec (inStep_ofText text) calls
  generalize (ofText text).run calls = d at hd hi hj
  have hip := hi.opener_lt_closer
  have hjq := hj.opener_lt_closer
  refine ⟨?_, ?_, ?_, ?_, ?_, ?_⟩
  · rintro rfl
    rcases Nat.lt_or_gt_of_ne hne with hlt | hlt
    · exact hi.disjoint hj hlt hi.closer_mem hj.closer_mem
    · exact hj.disjoint hi hlt hj.closer_mem hi.closer_mem
  · intro k hki hkj
    rcases Nat.lt_or_gt_of_ne hne with hlt | hlt
    · exact hi.disjoint hj hlt hki hkj
    · exact hj.disjoint hi hlt hkj hki
  · rcases Nat.lt_or_gt_of_ne hne with hlt | hlt
    · have hout := hi.outside hj hlt hi.closer_mem
      omega
    · have hout := hj.outside hi hlt hj.closer_mem
      omega
  · intro k l s t hs ht hkl
    exact View.stop_le_start_of_lt hd.exact hs ht hkl
  · intro k t offset ht hoffset hfits
    exact (View.map_groupPlaces hd.exact ht hoffset hfits).symm
  · intro k l s t offset hs hopens hoffset ht hcloses hbyte
    exact View.closes_iff hd.exact hs hopens ht hcloses hbyte hoffset

/-- A choice is put between the two ends of another one: the tokens of its group are none of the
outer group, which is found from the first byte and ends in the last word. -/
theorem closed_groups_never_cross_nested :
    let d := (ofText "if a then\nend").run [.replace ⟨1, 1, ["if b then c end"]⟩]
    d.view.Closes .block 0 14 ∧ d.view.Closes .block 5 13 ∧
    (∀ k ∈ d.view.groupPlaces 0, k ∉ d.view.groupPlaces 5) ∧
    (d.bracketGroup 0).map some =
      ((d.view.groupPlaces 0).map fun place => d.view.tokens[place]?.map Token.span) ∧
    (d.bracketGroup 0).getLast? = some ⟨26, 29⟩ := by
  intro d
  have hif : d.view.tokens[0]? = some ⟨.kwIf, ⟨0, 2⟩⟩ := by decide +kernel
  have hend : d.view.tokens[14]? = some ⟨.kwEnd, ⟨26, 29⟩⟩ := by decide +kernel
  have houter : d.view.Closes .block 0 14 := ⟨⟨_, hif, rfl⟩, ⟨_, hend, rfl⟩, by decide +kernel⟩
  have hinner : d.view.Closes .block 5 13 :=
    ⟨⟨⟨.kwIf, ⟨10, 12⟩⟩, by decide +kernel⟩, ⟨⟨.kwEnd, ⟨22, 25⟩⟩, by decide +kernel⟩,
      by decide +kernel⟩
  obtain ⟨-, hdisjoint, -, -, hanswer, hcloses⟩ := closed_groups_never_cross "if a then\nend"
    [.replace ⟨1, 1, ["if b then c end"]⟩] .block houter hinner (by decide)
  have hopener : ∀ family side, Kind.bracket? .kwIf = some (family, side) →
      side = .opener ∨ d.view.fitsAt 0 = true := by
    rintro family side hside
    exact .inl (Prod.mk.inj (Option.some.inj hside)).2.symm
  refine ⟨houter, hinner, hdisjoint, hanswer 0 _ 0 hif rfl hopener, ?_⟩
  exact (hcloses 0 14 _ _ 0 hif rfl rfl hend rfl (by decide)).mp houter

end Document
end PonyEditor
