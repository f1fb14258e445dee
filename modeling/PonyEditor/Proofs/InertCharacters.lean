import PonyEditor.Proofs.ByteScanning

/-!
# Inert characters

A character is inert if no word, number or symbol has it and it opens nothing (`Inert`).  Line feeds
and carriage returns are.  Put after the characters of a line, it lets every lexeme be that ends
before it: words, numbers and symbols stop at it as they stop at the end of the line (`word_append`,
`number_append`, `symbol_append`), and what is closed on the line never sees it.  So a lexeme that
leaves characters of the line over is read as before (`read_append_of_lt`).

What is still open at the end of the line goes on behind the character.  `Mode.extent` says how
far: half a marker before it and half a marker after it are no marker (`read_runsOn`).
-/

namespace PonyEditor

/-- A character that is in no word, number or symbol and opens neither a comment nor a string. -/
structure Inert (mark : Char) : Prop where
  word : Extent.isWordRest mark = false
  digit : Extent.isHexDigit mark = false
  symbol : ∀ entry ∈ Vocabulary.symbols, mark ∉ entry.1.toList
  slash : mark ≠ '/'
  quote : mark ≠ '"'

namespace Inert

variable {mark : Char} (h : Inert mark)
include h

lemma ne_of_isWordRest {c : Char} (hc : Extent.isWordRest c = true) : mark ≠ c := by
  rintro rfl
  exact Bool.noConfusion (h.word.symm.trans hc)

lemma isDigit : mark.isDigit = false := by
  have hword := h.word
  simp only [Extent.isWordRest, Char.isAlphanum, Bool.or_eq_false_iff] at hword
  exact hword.1.1.2

lemma isBinaryDigit : Extent.isBinaryDigit mark = false := by
  rw [Extent.isBinaryDigit, beq_eq_false_iff_ne.mpr (h.ne_of_isWordRest (by decide)),
    beq_eq_false_iff_ne.mpr (h.ne_of_isWordRest (by decide)), Bool.false_or]

lemma ne_dot : mark ≠ '.' := by
  rintro rfl
  exact h.symbol (".", .dot) (by decide) (by decide)

lemma ne_minus : mark ≠ '-' := by
  rintro rfl
  exact h.symbol ("-", .operator) (by decide) (by decide)

lemma ne_star : mark ≠ '*' := by
  rintro rfl
  exact h.symbol ("*", .operator) (by decide) (by decide)

end Inert

lemma inert_of_all {mark : Char} (hword : Extent.isWordRest mark = false)
    (hdigit : Extent.isHexDigit mark = false) (hslash : mark ≠ '/') (hquote : mark ≠ '"')
    (htable : (Vocabulary.symbols.all fun entry => !entry.1.toList.contains mark) = true) :
    Inert mark where
  word := hword
  digit := hdigit
  symbol := by
    intro entry hentry
    simpa using List.all_eq_true.mp htable entry hentry
  slash := hslash
  quote := hquote

/-- A line feed is inert. -/
lemma inert_newline : Inert '\n' :=
  inert_of_all (by decide) (by decide) (by decide) (by decide) (by decide +kernel)

/-- A carriage return is inert. -/
lemma inert_return : Inert '\r' :=
  inert_of_all (by decide) (by decide) (by decide) (by decide) (by decide +kernel)

namespace Extent

variable {mark : Char} (h : Inert mark) (cs rest : List Char)

/-! ## Constructs that the character ends -/

lemma takeWhile_append_mark {p : Char → Bool} (hp : p mark = false) :
    (cs ++ mark :: rest).takeWhile p = cs.takeWhile p := by
  induction cs with
  | nil => simp [hp]
  | cons c cs ih => by_cases hc : p c = true <;> simp [hc, ih]

lemma run_append {p : Char → Bool} (hp : p mark = false) :
    run p (cs ++ mark :: rest) = run p cs := by
  rw [run, takeWhile_append_mark cs rest hp, run]

lemma run_le (p : Char → Bool) (cs : List Char) : run p cs ≤ cs.length :=
  (List.takeWhile_prefix p).length_le

lemma fraction_of_ne {c : Char} (hc : c ≠ '.') (cs : List Char) : fraction (c :: cs) = 0 := by
  rw [fraction]
  intro rest heq
  exact hc (List.cons.inj heq).1

lemma fraction_le (cs : List Char) : fraction cs ≤ cs.length := by
  cases cs with
  | nil => exact Nat.le_refl 0
  | cons c cs =>
      by_cases hc : c = '.'
      · subst hc
        have hle := run_le Char.isDigit cs
        rw [fraction, List.length_cons]
        split <;> omega
      · rw [fraction_of_ne hc]
        exact Nat.zero_le _

lemma exponent_of_letter {letter : Char} (hletter : (letter == 'e' || letter == 'E') = true)
    {c : Char} (hc : c ≠ '-') (cs : List Char) :
    exponent (letter :: c :: cs) = run Char.isDigit (c :: cs) + 1 := by
  simp only [exponent, hletter, if_true]
  split
  · rename_i heq
    exact absurd (List.cons.inj heq).1 hc
  · rfl

include h

lemma fraction_append : fraction (cs ++ mark :: rest) = fraction cs := by
  cases cs with
  | nil => exact fraction_of_ne h.ne_dot rest
  | cons c cs =>
      by_cases hc : c = '.'
      · subst hc
        rw [List.cons_append, fraction, fraction, run_append cs rest h.isDigit]
      · rw [List.cons_append, fraction_of_ne hc, fraction_of_ne hc]

lemma exponent_append : exponent (cs ++ mark :: rest) = exponent cs := by
  cases cs with
  | nil =>
      have hsmall : (mark == 'e') = false :=
        beq_eq_false_iff_ne.mpr (h.ne_of_isWordRest (by decide))
      have hcapital : (mark == 'E') = false :=
        beq_eq_false_iff_ne.mpr (h.ne_of_isWordRest (by decide))
      simp [exponent, hsmall, hcapital]
  | cons c cs =>
      by_cases hletter : (c == 'e' || c == 'E') = true
      · cases cs with
        | nil =>
            rw [List.cons_append, List.nil_append, exponent_of_letter hletter h.ne_minus]
            simp [exponent, hletter, run, h.isDigit]
        | cons d cs =>
            by_cases hd : d = '-'
            · subst hd
              simp [exponent, hletter, run_append cs rest h.isDigit]
            · rw [List.cons_append, List.cons_append, exponent_of_letter hletter hd,
                exponent_of_letter hletter hd, ← List.cons_append, run_append _ rest h.isDigit]
      · simp [exponent, hletter]

lemma decimal_append : decimal (cs ++ mark :: rest) = decimal cs := by
  have hwhole := run_le Char.isDigit cs
  have hpart := fraction_le (cs.drop (run Char.isDigit cs))
  rw [List.length_drop] at hpart
  simp only [decimal, run_append cs rest h.isDigit]
  rw [List.drop_append_of_le_length hwhole, fraction_append h,
    List.drop_append_of_le_length (by omega), exponent_append h]

omit h in
/-- Two characters that open the line with the mark open it without, if the mark is neither. -/
lemma exists_of_append_eq {c d : Char} (hc : mark ≠ c) (hd : mark ≠ d) {ds : List Char}
    (heq : cs ++ mark :: rest = c :: d :: ds) : ∃ more, cs = c :: d :: more := by
  rcases cs with _ | ⟨c', _ | ⟨d', more⟩⟩
  · exact absurd (List.cons.inj heq).1 hc
  · exact absurd (List.cons.inj (List.cons.inj heq).2).1 hd
  · simp only [List.cons_append, List.cons.injEq] at heq
    obtain ⟨rfl, rfl, -⟩ := heq
    exact ⟨more, rfl⟩

/-- A number ends at the character. -/
lemma number_append : number (cs ++ mark :: rest) = number cs := by
  have hbase (c : Char) (hc : isWordRest c = true) {ds : List Char}
      (heq : cs ++ mark :: rest = '0' :: c :: ds) : ∃ more, cs = '0' :: c :: more :=
    exists_of_append_eq cs rest (h.ne_of_isWordRest (by decide)) (h.ne_of_isWordRest hc) heq
  fun_cases number cs with
  | case1 ds => simp [number, run_append ds rest h.digit]
  | case2 ds => simp [number, run_append ds rest h.digit]
  | case3 ds => simp [number, run_append ds rest h.isBinaryDigit]
  | case4 ds => simp [number, run_append ds rest h.isBinaryDigit]
  | case5 cs hx hX hb hB =>
      -- the base is announced by the line or not at all
      rw [number, decimal_append h]
      · intro ds heq
        obtain ⟨more, rfl⟩ := hbase 'x' (by decide) heq
        exact hx more rfl
      · intro ds heq
        obtain ⟨more, rfl⟩ := hbase 'X' (by decide) heq
        exact hX more rfl
      · intro ds heq
        obtain ⟨more, rfl⟩ := hbase 'b' (by decide) heq
        exact hb more rfl
      · intro ds heq
        obtain ⟨more, rfl⟩ := hbase 'B' (by decide) heq
        exact hB more rfl

/-! ## Constructs that are closed on the line -/

omit h in
/-- A string that leaves characters over is closed before them. -/
lemma string_append_of_lt {cs : List Char} (hlt : string cs < cs.length) (rest : List Char) :
    string (cs ++ rest) = string cs := by
  fun_induction string cs with
  | case1 => exact absurd hlt (Nat.lt_irrefl 0)
  | case2 cs => rfl
  | case3 c cs ih =>
      simp only [List.length_cons, Nat.add_lt_add_iff_right] at hlt
      rw [List.cons_append, List.cons_append, string, ih hlt]
  | case4 c cs hquote hescape ih =>
      simp only [List.length_cons, Nat.add_lt_add_iff_right] at hlt
      obtain ⟨d, ds, rfl⟩ := List.exists_cons_of_length_pos (Nat.zero_lt_of_lt hlt)
      rw [List.cons_append, string, ih hlt]
      · exact hquote
      · rintro e es rfl heq
        exact hescape d ds rfl rfl

omit h in
/-- A block comment that leaves characters over is closed before them. -/
lemma blockComment_append_of_lt {depth : Nat} {cs : List Char}
    (hlt : (blockComment depth cs).1 < cs.length) (rest : List Char) :
    blockComment depth (cs ++ rest) = blockComment depth cs := by
  fun_induction blockComment depth cs with
  | case1 => exact absurd hlt (Nat.lt_irrefl 0)
  | case2 depth cs n mode heq ih =>
      simp only [heq, List.length_cons, Nat.add_lt_add_iff_right] at hlt ih
      simp only [List.cons_append, blockComment, ih hlt]
  | case3 depth cs hdepth => simp [blockComment, hdepth]
  | case4 depth cs hdepth n mode heq ih =>
      simp only [heq, List.length_cons, Nat.add_lt_add_iff_right] at hlt ih
      simp only [List.cons_append, blockComment, if_neg hdepth, ih hlt]
  | case5 depth c cs hopen hclose n mode heq ih =>
      simp only [heq, List.length_cons, Nat.add_lt_add_iff_right] at hlt ih
      obtain ⟨d, ds, rfl⟩ := List.exists_cons_of_length_pos (Nat.zero_lt_of_lt hlt)
      rw [List.cons_append, blockComment, ih hlt]
      · rintro es rfl heq
        obtain ⟨rfl, -⟩ := List.cons.inj heq
        exact hopen ds rfl rfl
      · rintro es rfl heq
        obtain ⟨rfl, -⟩ := List.cons.inj heq
        exact hclose ds rfl rfl

omit h in
/-- A triple-quoted string that leaves characters over is closed before them. -/
lemma tripleString_append_of_lt {cs : List Char} (hlt : (tripleString cs).1 < cs.length)
    (rest : List Char) : tripleString (cs ++ rest) = tripleString cs := by
  fun_induction tripleString cs with
  | case1 => exact absurd hlt (Nat.lt_irrefl 0)
  | case2 cs => rfl
  | case3 c cs hclose n mode heq ih =>
      simp only [heq, List.length_cons, Nat.add_lt_add_iff_right] at hlt ih
      rw [List.cons_append, tripleString, ih hlt]
      rintro es rfl hquotes
      -- fewer than two characters after this one do not close the string
      rcases cs with _ | ⟨d, _ | ⟨e, ds⟩⟩
      · simp at hlt
      · simp [tripleString] at heq
        simp [← heq.1] at hlt
      · simp only [List.cons_append, List.cons.injEq] at hquotes
        obtain ⟨rfl, rfl, -⟩ := hquotes
        exact hclose ds rfl rfl

end Extent

/-! ## What is still open -/

namespace Mode

/-- How many of the characters belong to what is open before them, and the mode after it. -/
def extent : Mode → List Char → Nat × Mode
  | normal, _ => (0, normal)
  | tripleString, cs => Extent.tripleString cs
  | blockComment depth _, cs => Extent.blockComment depth cs

/-- The kind of what is open. -/
def openKind : Mode → Kind
  | tripleString => .string
  | _ => .comment

@[simp] lemma extent_nil (mode : Mode) : mode.extent [] = (0, mode) := by
  cases mode with
  | normal => rfl
  | tripleString => rfl
  | blockComment depth pos => rw [extent, Extent.blockComment, ofDepth_of_pos pos]

lemma read_of_ne_normal {mode : Mode} (hmode : mode ≠ normal) (c : Char) (cs : List Char) :
    mode.read c cs =
      ⟨mode.openKind, (mode.extent (c :: cs)).1 - 1, (mode.extent (c :: cs)).2⟩ := by
  cases mode with
  | normal => exact absurd rfl hmode
  | tripleString => rfl
  | blockComment depth pos => rfl

lemma extent_pos {mode : Mode} (hmode : mode ≠ normal) (c : Char) (cs : List Char) :
    0 < (mode.extent (c :: cs)).1 := by
  cases mode with
  | normal => exact absurd rfl hmode
  | tripleString => exact ByteReader.tripleString_pos c cs
  | blockComment depth pos => exact ByteReader.blockComment_pos depth c cs

end Mode

namespace Extent

/-- The construct is open at the end of the line: with the mark behind the line it has all of both,
and then what the mode at the end of the line calls for. -/
structure RunsOn (mark : Char) (kind : Kind) (extent : List Char → Nat × Mode) (cs : List Char) :
    Prop where
  kind : (extent cs).2.openKind = kind
  append : ∀ rest, extent (cs ++ mark :: rest) =
    (cs.length + 1 + ((extent cs).2.extent rest).1, ((extent cs).2.extent rest).2)

variable {mark : Char} (h : Inert mark)
include h

/-- A block comment that is not closed on the line goes on as deep as it is at the end. -/
lemma blockComment_runsOn {depth : Nat} {cs : List Char}
    (hopen : (blockComment depth cs).2 ≠ .normal) :
    RunsOn mark .comment (blockComment depth) cs := by
  fun_induction blockComment depth cs with
  | case1 depth =>
      have hpos : 0 < depth := Nat.pos_of_ne_zero fun hzero => hopen (by rw [hzero]; rfl)
      have hnil : blockComment depth [] = (0, .blockComment depth hpos) := by
        rw [blockComment, Mode.ofDepth_of_pos hpos]
      refine ⟨by rw [hnil]; rfl, fun rest => ?_⟩
      rw [hnil, List.nil_append, blockComment]
      · simp [Mode.extent, Nat.add_comm]
      · exact fun _ heq => absurd heq h.slash
      · exact fun _ heq => absurd heq h.ne_star
  | case2 depth cs n mode heq ih =>
      obtain ⟨hkind, happend⟩ := ih (by rwa [heq])
      refine ⟨hkind, fun rest => ?_⟩
      simp only [List.cons_append, blockComment, happend rest, List.length_cons, Prod.mk.injEq,
        and_true]
      omega
  | case3 => exact absurd rfl hopen
  | case4 depth cs hdepth n mode heq ih =>
      obtain ⟨hkind, happend⟩ := ih (by rwa [heq])
      have hcons : blockComment depth ('*' :: '/' :: cs) =
          ((blockComment (depth - 1) cs).1 + 2, (blockComment (depth - 1) cs).2) := by
        rw [blockComment, if_neg hdepth]
      refine ⟨by rwa [hcons], fun rest => ?_⟩
      simp only [hcons, List.cons_append, blockComment, if_neg hdepth, happend rest,
        List.length_cons, Prod.mk.injEq, and_true]
      omega
  | case5 depth c cs hnotOpen hnotClose n mode heq ih =>
      obtain ⟨hkind, happend⟩ := ih (by rwa [heq])
      have hcons : blockComment depth (c :: cs) =
          ((blockComment depth cs).1 + 1, (blockComment depth cs).2) := by
        rw [blockComment]
        · exact hnotOpen
        · exact hnotClose
      refine ⟨by rwa [hcons], fun rest => ?_⟩
      rw [hcons, List.cons_append, blockComment, happend rest]
      · simp only [List.length_cons, Prod.mk.injEq, and_true]
        omega
      · rintro ds rfl hmarker
        rcases cs with _ | ⟨d, cs⟩
        · exact h.ne_star (List.cons.inj hmarker).1
        · obtain ⟨rfl, -⟩ := List.cons.inj hmarker
          exact hnotOpen cs rfl rfl
      · rintro ds rfl hmarker
        rcases cs with _ | ⟨d, cs⟩
        · exact h.slash (List.cons.inj hmarker).1
        · obtain ⟨rfl, -⟩ := List.cons.inj hmarker
          exact hnotClose cs rfl rfl

/-- A triple-quoted string that is not closed on the line goes on. -/
lemma tripleString_runsOn {cs : List Char} (hopen : (tripleString cs).2 ≠ .normal) :
    RunsOn mark .string tripleString cs := by
  fun_induction tripleString cs with
  | case1 =>
      refine ⟨rfl, fun rest => ?_⟩
      have hnil : tripleString [] = (0, .tripleString) := rfl
      rw [hnil, List.nil_append, tripleString]
      · simp [Mode.extent, Nat.add_comm]
      · exact fun _ heq => absurd heq h.quote
  | case2 => exact absurd rfl hopen
  | case3 c cs hclose n mode heq ih =>
      obtain ⟨hkind, happend⟩ := ih (by rwa [heq])
      have hcons : tripleString (c :: cs) = ((tripleString cs).1 + 1, (tripleString cs).2) := by
        rw [tripleString]
        exact hclose
      refine ⟨by rwa [hcons], fun rest => ?_⟩
      rw [hcons, List.cons_append, tripleString, happend rest]
      · simp only [List.length_cons, Prod.mk.injEq, and_true]
        omega
      · rintro ds rfl hquotes
        obtain ⟨more, rfl⟩ := exists_of_append_eq cs rest h.quote h.quote hquotes
        exact hclose more rfl rfl

end Extent

/-! ## Readings -/

namespace Reading

variable {mark : Char} (h : Inert mark) (c : Char)
include h

/-- A word ends at the character. -/
lemma word_append (cs rest : List Char) : word c (cs ++ mark :: rest) = word c cs := by
  rw [word, word, Extent.takeWhile_append_mark cs rest h.word]

omit h in
lemma isPrefixOf_append_mark {xs : List Char} (hxs : mark ∉ xs) (cs rest : List Char) :
    xs.isPrefixOf (cs ++ mark :: rest) = xs.isPrefixOf cs := by
  induction xs generalizing cs with
  | nil => rfl
  | cons x xs ih =>
      obtain ⟨hx, hxs⟩ := not_or.mp (mt List.mem_cons.mpr hxs)
      cases cs with
      | nil => simp [List.isPrefixOf, Ne.symm hx]
      | cons c cs => simp [List.isPrefixOf, ih hxs]

/-- A symbol ends at the character. -/
lemma symbol_append (cs rest : List Char) : symbol c (cs ++ mark :: rest) = symbol c cs := by
  have hsymbol : Vocabulary.symbol? (c :: cs ++ mark :: rest) = Vocabulary.symbol? (c :: cs) :=
    List.find?_congr fun entry hentry => isPrefixOf_append_mark (h.symbol entry hentry) _ rest
  rw [symbol, ← List.cons_append, hsymbol, symbol]

omit h in
lemma slash_append_of_lt {cs : List Char} (hlt : (slash cs).more < cs.length) (rest : List Char) :
    slash (cs ++ rest) = slash cs := by
  fun_cases slash cs with
  | case1 cs => exact absurd hlt (Nat.lt_irrefl _)
  | case2 cs n mode heq =>
      simp only [slash, heq, List.length_cons, Nat.add_lt_add_iff_right] at hlt
      have happend := Extent.blockComment_append_of_lt (by rwa [heq]) rest
      simp only [List.cons_append, slash, happend, heq]
  | case3 cs hline hblock =>
      obtain ⟨d, ds, rfl⟩ := List.exists_cons_of_length_pos (Nat.zero_lt_of_lt hlt)
      rw [List.cons_append, slash]
      · rintro es heq
        obtain ⟨rfl, -⟩ := List.cons.inj heq
        exact hline ds rfl
      · rintro es heq
        obtain ⟨rfl, -⟩ := List.cons.inj heq
        exact hblock ds rfl

omit h in
lemma quote_append_of_lt {cs : List Char} (hlt : (quote cs).more < cs.length) (rest : List Char) :
    quote (cs ++ rest) = quote cs := by
  fun_cases quote cs with
  | case1 cs n mode heq =>
      simp only [quote, heq, List.length_cons, Nat.add_lt_add_iff_right] at hlt
      have happend := Extent.tripleString_append_of_lt (by rwa [heq]) rest
      simp only [List.cons_append, quote, happend, heq]
  | case2 cs hquotes =>
      rw [quote] at hlt
      · rw [quote, Extent.string_append_of_lt hlt]
        -- one quote alone closes the string at the end of the line
        rcases cs with _ | ⟨d, _ | ⟨e, ds⟩⟩
        · cases hlt
        · rintro es heq
          obtain ⟨rfl, -⟩ := List.cons.inj heq
          exact absurd hlt (Nat.lt_irrefl 1)
        · rintro es heq
          simp only [List.cons_append, List.cons.injEq] at heq
          obtain ⟨rfl, rfl, -⟩ := heq
          exact hquotes ds rfl
      · exact hquotes

omit h in
lemma plain_of_ne (hslash : ¬ (c == '/') = true) (hquote : ¬ (c == '"') = true) (cs : List Char) :
    plain c cs =
      if c.isDigit then ⟨.number, Extent.number (c :: cs) - 1, .normal⟩
      else if Extent.isWordStart c then word c cs
      else symbol c cs := by
  rw [plain, if_neg hslash, if_neg hquote]

/-- Numbers, words and symbols end at the character. -/
lemma plain_append_of_ne (hslash : ¬ (c == '/') = true) (hquote : ¬ (c == '"') = true)
    (cs rest : List Char) : plain c (cs ++ mark :: rest) = plain c cs := by
  rw [plain_of_ne c hslash hquote, plain_of_ne c hslash hquote, ← List.cons_append,
    Extent.number_append h, word_append h, symbol_append h]

lemma plain_append_of_lt {cs : List Char} (hlt : (plain c cs).more < cs.length)
    (rest : List Char) : plain c (cs ++ mark :: rest) = plain c cs := by
  by_cases hslash : (c == '/') = true
  · simp only [plain, if_pos hslash] at hlt ⊢
    exact slash_append_of_lt hlt _
  by_cases hquote : (c == '"') = true
  · simp only [plain, if_neg hslash, if_pos hquote] at hlt ⊢
    exact quote_append_of_lt hlt _
  exact plain_append_of_ne h c hslash hquote cs rest

/-- The lexeme is open at the end of the line: with the mark behind the line it has all of both, and
then what the mode at the end of the line calls for. -/
structure RunsOn (mark : Char) (read : List Char → Reading) (cs : List Char) : Prop where
  kind : (read cs).kind = (read cs).mode.openKind
  append : ∀ rest, read (cs ++ mark :: rest) = ⟨(read cs).kind,
    cs.length + 1 + ((read cs).mode.extent rest).1, ((read cs).mode.extent rest).2⟩

lemma slash_runsOn {cs : List Char} (hopen : (slash cs).mode ≠ .normal) :
    RunsOn mark slash cs := by
  fun_cases slash cs with
  | case1 => exact absurd rfl hopen
  | case2 cs =>
      obtain ⟨hkind, happend⟩ := Extent.blockComment_runsOn h hopen
      refine ⟨hkind.symm, fun rest => ?_⟩
      simp only [List.cons_append, slash, happend rest, List.length_cons, Reading.mk.injEq,
        and_true, true_and]
      omega
  | case3 cs hline hblock => exact absurd (by rw [slash]; exacts [hline, hblock]) hopen

lemma quote_runsOn {cs : List Char} (hopen : (quote cs).mode ≠ .normal) :
    RunsOn mark quote cs := by
  fun_cases quote cs with
  | case1 cs =>
      obtain ⟨hkind, happend⟩ := Extent.tripleString_runsOn h hopen
      refine ⟨hkind.symm, fun rest => ?_⟩
      simp only [List.cons_append, quote, happend rest, List.length_cons, Reading.mk.injEq,
        and_true, true_and]
      omega
  | case2 cs hquotes => exact absurd (by rw [quote]; exact hquotes) hopen

omit h in
lemma symbol_mode (c : Char) (cs : List Char) : (symbol c cs).mode = .normal := by
  rw [symbol]
  split <;> rfl

/-- Only comments and triple-quoted strings are open at the end of a line. -/
lemma plain_runsOn {cs : List Char} (hopen : (plain c cs).mode ≠ .normal) :
    RunsOn mark (plain c) cs := by
  by_cases hslash : (c == '/') = true
  · have hplain : plain c = slash := funext fun cs => by rw [plain, if_pos hslash]
    rw [hplain] at hopen ⊢
    exact slash_runsOn h hopen
  by_cases hquote : (c == '"') = true
  · have hplain : plain c = quote :=
      funext fun cs => by rw [plain, if_neg hslash, if_pos hquote]
    rw [hplain] at hopen ⊢
    exact quote_runsOn h hopen
  refine absurd ?_ hopen
  rw [plain_of_ne c hslash hquote]
  split
  · rfl
  split
  · rfl
  · exact symbol_mode c cs

end Reading

namespace Mode

lemma extent_append_of_lt {mode : Mode} (hmode : mode ≠ normal) {cs : List Char}
    (hlt : (mode.extent cs).1 < cs.length) (rest : List Char) :
    mode.extent (cs ++ rest) = mode.extent cs := by
  cases mode with
  | normal => exact absurd rfl hmode
  | tripleString => exact Extent.tripleString_append_of_lt hlt rest
  | blockComment depth pos => exact Extent.blockComment_append_of_lt hlt rest

variable {mark : Char} (h : Inert mark)
include h

lemma extent_runsOn {mode : Mode} (hmode : mode ≠ normal) {cs : List Char}
    (hopen : (mode.extent cs).2 ≠ normal) :
    Extent.RunsOn mark mode.openKind mode.extent cs := by
  cases mode with
  | normal => exact absurd rfl hmode
  | tripleString => exact Extent.tripleString_runsOn h hopen
  | blockComment depth pos => exact Extent.blockComment_runsOn h hopen

/-- An inert character belongs to what is open. -/
lemma extent_cons_mark {mode : Mode} (hmode : mode ≠ normal) (rest : List Char) :
    mode.extent (mark :: rest) = (1 + (mode.extent rest).1, (mode.extent rest).2) := by
  have hopen : (mode.extent []).2 ≠ normal := by rwa [extent_nil]
  have happend := (extent_runsOn h hmode hopen).append rest
  rwa [extent_nil, List.nil_append, List.length_nil, Nat.zero_add] at happend

variable (mode : Mode) (c : Char) {cs : List Char}

/-- **A lexeme that leaves characters of the line over is read as before** when the line goes on
behind an inert character. -/
lemma read_append_of_lt (hlt : (mode.read c cs).more < cs.length) (rest : List Char) :
    mode.read c (cs ++ mark :: rest) = mode.read c cs := by
  rcases eq_or_ne mode normal with rfl | hmode
  · exact Reading.plain_append_of_lt h c hlt rest
  · rw [read_of_ne_normal hmode] at hlt
    have hshort : (mode.extent (c :: cs)).1 < (c :: cs).length :=
      Nat.lt_succ_of_le (Nat.le_of_pred_lt hlt)
    rw [read_of_ne_normal hmode, read_of_ne_normal hmode, ← List.cons_append,
      extent_append_of_lt hmode hshort]

/-- **A lexeme that is open at the end of the line goes on** behind an inert character. -/
lemma read_runsOn (hopen : (mode.read c cs).mode ≠ .normal) :
    Reading.RunsOn mark (mode.read c) cs := by
  rcases eq_or_ne mode normal with rfl | hmode
  · exact Reading.plain_runsOn h c hopen
  · rw [read_of_ne_normal hmode] at hopen
    obtain ⟨hkind, happend⟩ := extent_runsOn h hmode hopen
    refine ⟨?_, fun rest => ?_⟩
    · rw [read_of_ne_normal hmode, hkind]
    · simp only [read_of_ne_normal hmode, ← List.cons_append, happend rest, List.length_cons,
        Reading.mk.injEq, and_true, true_and]
      omega

end Mode
end PonyEditor
