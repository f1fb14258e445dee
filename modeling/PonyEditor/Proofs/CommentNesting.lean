import Mathlib.Tactic.Lemma
import PonyEditor.Proofs.NextTokens

/-!
# Nesting of block comments

The inside of a block comment is read from left to right as pieces: markers that open a comment,
markers that close one, and characters between them.  No two pieces share a character, so a slash
that a star stands on both sides of belongs to the first of the two markers it could be in.  The
depth at some point is the depth at the start, with one more for every opening and one less for
every closing piece before.

The comment ends behind the first closing piece that brings the depth to zero, and without one it
has the rest of the line and hands its depth to the next (`comment_tracks_nesting`).  The count is
kept in a word of 32 bits; it stops at the greatest one, and never has to go below zero
(`ByteReader.countComment_eq`).
-/

namespace PonyEditor

/-! ## Pieces -/

/-- A piece of the inside of a block comment. -/
inductive CommentPiece where
  /-- A slash and a star. -/
  | opening
  /-- A star and a slash. -/
  | closing
  /-- A character that is in neither of them. -/
  | other (c : Char)
  deriving DecidableEq

namespace CommentPiece

/-- The characters of a piece. -/
def text : CommentPiece → List Char
  | opening => ['/', '*']
  | closing => ['*', '/']
  | other c => [c]

/-- The characters of some pieces. -/
def textOf (ps : List CommentPiece) : List Char := ps.flatMap text

/-- The pieces of a text, each as far to the left as it can be. -/
def ofText : List Char → List CommentPiece
  | [] => []
  | '/' :: '*' :: cs => opening :: ofText cs
  | '*' :: '/' :: cs => closing :: ofText cs
  | c :: cs => other c :: ofText cs

/-- The number of opening pieces. -/
def opens (ps : List CommentPiece) : Nat := ps.count opening

/-- The number of closing pieces. -/
def closes (ps : List CommentPiece) : Nat := ps.count closing

/-- A closing piece behind these brings the depth to zero. -/
def ClosesBehind (depth : Nat) (ps : List CommentPiece) : Prop :=
  depth + opens ps = closes ps + 1

instance (depth : Nat) (ps : List CommentPiece) : Decidable (ClosesBehind depth ps) :=
  inferInstanceAs (Decidable (_ = _))

/-- No closing piece of these brings the depth to zero. -/
def StaysOpen (depth : Nat) (ps : List CommentPiece) : Prop :=
  ∀ before after, ps = before ++ closing :: after → ¬ ClosesBehind depth before

variable {depth : Nat} {p : CommentPiece} {ps : List CommentPiece} {cs : List Char}

lemma textOf_ofText (cs : List Char) : textOf (ofText cs) = cs := by
  fun_induction ofText cs with
  | case1 => rfl
  | case2 cs ih => exact congrArg (['/', '*'] ++ ·) ih
  | case3 cs ih => exact congrArg (['*', '/'] ++ ·) ih
  | case4 c cs _ _ ih => exact congrArg ([c] ++ ·) ih

lemma textOf_cons (p : CommentPiece) (ps : List CommentPiece) :
    textOf (p :: ps) = p.text ++ textOf ps :=
  List.flatMap_cons

lemma textOf_append (ps qs : List CommentPiece) : textOf (ps ++ qs) = textOf ps ++ textOf qs :=
  List.flatMap_append

/-! ## Depth -/

@[simp] lemma opens_opening (ps : List CommentPiece) : opens (opening :: ps) = opens ps + 1 :=
  List.count_cons_self

@[simp] lemma opens_closing (ps : List CommentPiece) : opens (closing :: ps) = opens ps :=
  List.count_cons_of_ne (by simp)

@[simp] lemma opens_other (c : Char) (ps : List CommentPiece) : opens (other c :: ps) = opens ps :=
  List.count_cons_of_ne (by simp)

@[simp] lemma closes_opening (ps : List CommentPiece) : closes (opening :: ps) = closes ps :=
  List.count_cons_of_ne (by simp)

@[simp] lemma closes_closing (ps : List CommentPiece) : closes (closing :: ps) = closes ps + 1 :=
  List.count_cons_self

@[simp] lemma closes_other (c : Char) (ps : List CommentPiece) :
    closes (other c :: ps) = closes ps :=
  List.count_cons_of_ne (by simp)

@[simp] lemma staysOpen_nil (depth : Nat) : StaysOpen depth [] := by
  intro before after hps
  cases before <;> cases hps

/-- The first piece is not the one that ends the comment, and the depth behind it is `after`. -/
lemma staysOpen_cons {after : Nat}
    (hshift : ∀ qs, ClosesBehind depth (p :: qs) ↔ ClosesBehind after qs) :
    StaysOpen depth (p :: ps) ↔ (p = closing → depth ≠ 1) ∧ StaysOpen after ps := by
  constructor
  · intro h
    constructor
    · rintro rfl hdepth
      exact h [] ps rfl hdepth
    · intro before later hps
      rw [← hshift]
      exact h (p :: before) later (congrArg (p :: ·) hps)
  · rintro ⟨hfirst, hlater⟩ before later hps
    rcases List.cons_eq_append_iff.mp hps with ⟨rfl, heq⟩ | ⟨before, rfl, heq⟩
    · exact hfirst (List.cons.inj heq).1.symm
    · rw [hshift]
      exact hlater before later heq

@[simp] lemma staysOpen_opening : StaysOpen depth (opening :: ps) ↔ StaysOpen (depth + 1) ps := by
  have hshift (qs : List CommentPiece) :
      ClosesBehind depth (opening :: qs) ↔ ClosesBehind (depth + 1) qs := by
    rw [ClosesBehind, ClosesBehind, opens_opening, closes_opening]
    omega
  rw [staysOpen_cons hshift]
  simp

@[simp] lemma staysOpen_closing :
    StaysOpen (depth + 1) (closing :: ps) ↔ depth ≠ 0 ∧ StaysOpen depth ps := by
  have hshift (qs : List CommentPiece) :
      ClosesBehind (depth + 1) (closing :: qs) ↔ ClosesBehind depth qs := by
    rw [ClosesBehind, ClosesBehind, opens_closing, closes_closing]
    omega
  rw [staysOpen_cons hshift]
  simp

@[simp] lemma staysOpen_other {c : Char} :
    StaysOpen depth (other c :: ps) ↔ StaysOpen depth ps := by
  have hshift (qs : List CommentPiece) :
      ClosesBehind depth (other c :: qs) ↔ ClosesBehind depth qs := by
    rw [ClosesBehind, ClosesBehind, opens_other, closes_other]
  rw [staysOpen_cons hshift]
  simp

/-- As long as nothing has brought the depth to zero it is above zero. -/
lemma StaysOpen.closes_lt (h : StaysOpen depth ps) (hdepth : 0 < depth) :
    closes ps < depth + opens ps := by
  induction ps generalizing depth with
  | nil => exact hdepth
  | cons p ps ih =>
      cases p with
      | opening =>
          have hps := ih (staysOpen_opening.mp h) (Nat.succ_pos depth)
          rw [opens_opening, closes_opening]
          omega
      | closing =>
          obtain ⟨depth, rfl⟩ := Nat.exists_eq_succ_of_ne_zero hdepth.ne'
          obtain ⟨hne, hstays⟩ := staysOpen_closing.mp h
          have hps := ih hstays (Nat.pos_of_ne_zero hne)
          rw [opens_closing, closes_closing]
          omega
      | other c =>
          rw [opens_other, closes_other]
          exact ih (staysOpen_other.mp h) hdepth

/-- A comment stays open, or a first piece closes it. -/
lemma staysOpen_or_exists (depth : Nat) (ps : List CommentPiece) :
    StaysOpen depth ps ∨ ∃ before after, ps = before ++ closing :: after ∧
      ClosesBehind depth before ∧ StaysOpen depth before := by
  by_cases hstays : StaysOpen depth ps
  · exact .inl hstays
  · simp only [StaysOpen, not_forall, not_not] at hstays
    obtain ⟨before, after, hps, hcloses⟩ := hstays
    right
    -- this piece closes the comment, unless one in front of it does
    rcases staysOpen_or_exists depth before with hbefore | ⟨earlier, later, hsplit, hfirst⟩
    · exact ⟨before, after, hps, hcloses, hbefore⟩
    · refine ⟨earlier, later ++ closing :: after, ?_, hfirst⟩
      rw [hps, hsplit, List.append_assoc, List.cons_append]
termination_by ps.length
decreasing_by rw [hps, List.length_append, List.length_cons]; omega

/-! ## The extent of a comment -/

/-- The pieces are those that their text is read as. -/
def AreRead (ps : List CommentPiece) : Prop := ofText (textOf ps) = ps

lemma areRead_ofText (cs : List Char) : AreRead (ofText cs) := by
  rw [AreRead, textOf_ofText]

lemma AreRead.opening_tail (h : AreRead (opening :: ps)) : AreRead ps := (List.cons.inj h).2

lemma AreRead.closing_tail (h : AreRead (closing :: ps)) : AreRead ps := (List.cons.inj h).2

/-- A character is not read as one if it begins a marker. -/
lemma AreRead.other_notMarker {c : Char} (h : AreRead (other c :: ps)) :
    (∀ cs, c = '/' → textOf ps = '*' :: cs → False) ∧
      ∀ cs, c = '*' → textOf ps = '/' :: cs → False := by
  constructor
  · rintro cs rfl hps
    rw [AreRead, textOf_cons, hps] at h
    cases (List.cons.inj h).1
  · rintro cs rfl hps
    rw [AreRead, textOf_cons, hps] at h
    cases (List.cons.inj h).1

lemma AreRead.other_tail {c : Char} (h : AreRead (other c :: ps)) : AreRead ps := by
  have hread := h
  rw [AreRead, textOf_cons, text, List.singleton_append, ofText] at hread
  · exact (List.cons.inj hread).2
  · exact h.other_notMarker.1
  · exact h.other_notMarker.2

lemma blockComment_other {c : Char} (h : AreRead (other c :: ps)) (depth : Nat) :
    Extent.blockComment depth (textOf (other c :: ps)) =
      ((Extent.blockComment depth (textOf ps)).1 + 1,
        (Extent.blockComment depth (textOf ps)).2) := by
  rw [textOf_cons, text, List.singleton_append, Extent.blockComment]
  · exact h.other_notMarker.1
  · exact h.other_notMarker.2

lemma blockComment_opening (hlimit : depth < Offset.limit) (ps : List CommentPiece) :
    Extent.blockComment depth (textOf (opening :: ps)) =
      ((Extent.blockComment (depth + 1) (textOf ps)).1 + 2,
        (Extent.blockComment (depth + 1) (textOf ps)).2) := by
  have hdeepen : Mode.deepen depth = depth + 1 := if_pos hlimit
  rw [← hdeepen]
  rfl

lemma blockComment_closing (hdepth : depth ≠ 0) (ps : List CommentPiece) :
    Extent.blockComment (depth + 1) (textOf (closing :: ps)) =
      ((Extent.blockComment depth (textOf ps)).1 + 2,
        (Extent.blockComment depth (textOf ps)).2) := by
  have hlast : ¬ depth + 1 ≤ 1 := by omega
  rw [textOf_cons, text, List.cons_append, List.singleton_append, Extent.blockComment,
    if_neg hlast, Nat.add_sub_cancel]

/-- **A comment that stays open** has all of the text, and its depth goes to the next line. -/
lemma blockComment_of_staysOpen (hread : AreRead ps) (hdepth : 0 < depth)
    (hlimit : depth + opens ps ≤ Offset.limit) (hstays : StaysOpen depth ps) :
    Extent.blockComment depth (textOf ps) =
      ((textOf ps).length, Mode.ofDepth (depth + opens ps - closes ps)) := by
  induction ps generalizing depth with
  | nil => rfl
  | cons p ps ih =>
      cases p with
      | opening =>
          rw [opens_opening] at hlimit
          have hbody := ih hread.opening_tail (by omega) (by omega) (staysOpen_opening.mp hstays)
          have hsum : depth + 1 + opens ps = depth + (opens ps + 1) := by omega
          rw [blockComment_opening (by omega), hbody, hsum, opens_opening, closes_opening]
          rfl
      | closing =>
          obtain ⟨depth, rfl⟩ : ∃ d, depth = d + 1 := ⟨depth - 1, by omega⟩
          obtain ⟨hne, hrest⟩ := staysOpen_closing.mp hstays
          rw [opens_closing] at hlimit
          have hbody := ih hread.closing_tail (by omega) (by omega) hrest
          have hsum : depth + 1 + opens ps - (closes ps + 1) = depth + opens ps - closes ps := by
            omega
          rw [blockComment_closing hne, hbody, opens_closing, closes_closing, hsum]
          rfl
      | other c =>
          rw [opens_other] at hlimit
          have hbody := ih hread.other_tail hdepth hlimit (staysOpen_other.mp hstays)
          rw [blockComment_other hread, hbody, opens_other, closes_other]
          rfl

/-- **A comment that is closed** ends with the piece that brings its depth to zero. -/
lemma blockComment_of_closesBehind {before after : List CommentPiece}
    (hread : AreRead (before ++ closing :: after)) (hdepth : 0 < depth)
    (hlimit : depth + opens before ≤ Offset.limit) (hcloses : ClosesBehind depth before)
    (hstays : StaysOpen depth before) :
    Extent.blockComment depth (textOf (before ++ closing :: after)) =
      ((textOf before).length + 2, .normal) := by
  rw [ClosesBehind] at hcloses
  induction before generalizing depth with
  | nil =>
      obtain rfl : depth = 1 := hcloses
      rfl
  | cons p before ih =>
      rw [List.cons_append] at hread ⊢
      cases p with
      | opening =>
          rw [opens_opening] at hlimit hcloses
          rw [closes_opening] at hcloses
          have hbody := ih hread.opening_tail (by omega) (by omega) (by omega)
            (staysOpen_opening.mp hstays)
          rw [blockComment_opening (by omega), hbody]
          rfl
      | closing =>
          obtain ⟨depth, rfl⟩ : ∃ d, depth = d + 1 := ⟨depth - 1, by omega⟩
          obtain ⟨hne, hrest⟩ := staysOpen_closing.mp hstays
          rw [opens_closing] at hlimit hcloses
          rw [closes_closing] at hcloses
          have hbody := ih hread.closing_tail (by omega) (by omega) (by omega) hrest
          rw [blockComment_closing hne, hbody]
          rfl
      | other c =>
          rw [opens_other] at hlimit hcloses
          rw [closes_other] at hcloses
          have hbody := ih hread.other_tail hdepth hlimit hcloses (staysOpen_other.mp hstays)
          rw [blockComment_other hread, hbody]
          rfl

end CommentPiece

/-! ## The counter -/

lemma Mode.deepen_pos {depth : Nat} (h : 0 < depth) : 0 < deepen depth := by
  rw [deepen]
  split
  · exact Nat.succ_pos depth
  · exact h

namespace ByteReader

/-- A mark of a comment that was found is there to be moved over. -/
lemma length_rest_seekCommentMark_lt {r : ByteReader} (h : r.seekCommentMark.2 ≠ 0) {n : Nat}
    (hn : 0 < n) : (r.seekCommentMark.1.advance n).rest.length < r.rest.length :=
  Nat.lt_of_lt_of_le (length_rest_advance_lt h hn) (r.length_rest_seek_le _)

/-- One comment more, in a word of 32 bits; a full word stays as it is. -/
def deepenWord (depth : UInt32) : UInt32 := if depth = 4294967295 then depth else depth + 1

lemma toNat_deepenWord (depth : UInt32) :
    (deepenWord depth).toNat = Mode.deepen depth.toNat := by
  have hlt := depth.toNat_lt
  by_cases hfull : depth = 4294967295
  · subst hfull
    rfl
  · have hne : depth.toNat ≠ 4294967295 := fun h => hfull (UInt32.toNat_inj.mp h)
    have hroom : depth.toNat < Offset.limit := by
      rw [Offset.limit]
      omega
    rw [deepenWord, if_neg hfull, Mode.deepen, if_pos hroom, UInt32.toNat_add]
    exact Nat.mod_eq_of_lt (Nat.succ_lt_succ hroom)

/-- Moves over the rest of a block comment with the depth in a word of 32 bits.  There is no answer
if one less is asked of zero. -/
def countComment (depth : UInt32) (r : ByteReader) : Option (ByteReader × Mode) :=
  let found := r.seekCommentMark
  if found.2 = '/'.toUInt8 ∧ found.1.peek 1 = '*'.toUInt8 then
    countComment (deepenWord depth) (found.1.advance 2)
  else if found.2 = '*'.toUInt8 ∧ found.1.peek 1 = '/'.toUInt8 then
    if depth = 0 then none
    else if depth - 1 = 0 then some (found.1.advance 2, .normal)
    else countComment (depth - 1) (found.1.advance 2)
  else if found.2 = 0 then some (found.1, Mode.ofDepth depth.toNat)
  else countComment depth (found.1.advance 1)
termination_by r.rest.length
decreasing_by
  · rename_i hopen
    exact length_rest_seekCommentMark_lt
      (fun hzero => absurd (hopen.1.symm.trans hzero) (by decide)) (by decide)
  · rename_i hclose _ _
    exact length_rest_seekCommentMark_lt
      (fun hzero => absurd (hclose.1.symm.trans hzero) (by decide)) (by decide)
  · rename_i hend
    exact length_rest_seekCommentMark_lt hend (by decide)

/-- **The counter never goes below zero**, and counts what there is to count. -/
lemma countComment_eq {depth : UInt32} (hdepth : depth ≠ 0) (r : ByteReader) :
    r.countComment depth = some (r.blockComment depth.toNat) := by
  have hpos (depth : UInt32) : depth ≠ 0 ↔ 0 < depth.toNat := by
    rw [ne_eq, ← UInt32.toNat_inj]
    exact Nat.pos_iff_ne_zero.symm
  have hless (depth : UInt32) (h : depth ≠ 0) : (depth - 1).toNat = depth.toNat - 1 :=
    UInt32.toNat_sub_of_le _ _ (UInt32.le_iff_toNat_le.mpr ((hpos depth).mp h))
  fun_induction countComment depth r
  case case1 depth r found hopen ih =>
    have hdeeper : deepenWord depth ≠ 0 := by
      rw [hpos, toNat_deepenWord]
      exact Mode.deepen_pos ((hpos depth).mp hdepth)
    rw [blockComment, if_pos hopen, ih hdeeper, toNat_deepenWord]
  case case2 => exact absurd rfl hdepth
  case case3 depth r found hopen hclose _ hlast =>
    have hone : depth.toNat ≤ 1 := by
      rw [← UInt32.toNat_inj, hless depth hdepth] at hlast
      exact Nat.sub_eq_zero_iff_le.mp hlast
    rw [blockComment, if_neg hopen, if_pos hclose, if_pos hone]
  case case4 depth r found hopen hclose _ hlast ih =>
    have hmore : ¬ depth.toNat ≤ 1 := by
      rw [← UInt32.toNat_inj, hless depth hdepth] at hlast
      exact mt Nat.sub_eq_zero_iff_le.mpr hlast
    rw [blockComment, if_neg hopen, if_pos hclose, if_neg hmore, ih hlast, hless depth hdepth]
  case case5 depth r found hopen hclose hend =>
    rw [blockComment, if_neg hopen, if_neg hclose, if_pos hend]
  case case6 depth r found hopen hclose hend ih =>
    rw [blockComment, if_neg hopen, if_neg hclose, if_neg hend, ih hdepth]

end ByteReader

/-! ## Tokens -/

namespace Mode

open CommentPiece

/-- What stands behind `lead` is read as the inside of a block comment, so many comments deep: all
of it where a comment goes on, or what follows the marker that opens one. -/
inductive ReadsComment : Mode → List Char → Nat → Prop
  | inside {depth : Nat} (pos : 0 < depth) : ReadsComment (.blockComment depth pos) [] depth
  | opened : ReadsComment .normal ['/', '*'] 1

namespace ReadsComment

variable {mode exit : Mode} {lead text rest : List Char} {depth : Nat}

lemma pos (h : mode.ReadsComment lead depth) : 0 < depth := by
  cases h with
  | inside pos => exact pos
  | opened => exact Nat.one_pos

/-- The token is the lead and as much behind it as belongs to the comment. -/
lemma takes (h : mode.ReadsComment lead depth) (hne : lead ++ text ≠ [])
    (hbody : Extent.blockComment depth (text ++ rest) = (text.length, exit)) :
    mode.Takes .comment (lead ++ text) rest exit := by
  cases h with
  | inside pos => exact Takes.of_extent nofun hne hbody
  | opened =>
      have hread : Mode.normal.read '/' ('*' :: text ++ rest) =
          ⟨.comment, ('*' :: text).length, exit⟩ := by
        rw [read_slash, List.cons_append, Reading.slash, hbody]
        rfl
      exact Takes.of_read hread

end ReadsComment

/-- **Block comments track nesting exactly.**  The text behind the lead is read as pieces, and they
are all of it.  Either none of them brings the depth to zero, or there is a first one that does.  In
the second case the token ends with that piece and nothing is open behind it.  In the first it has
the rest of the line, and leaves open what was open at its start and the opening pieces less the
closing ones, which is at least one.  At every point up to the end of the token the depth is above
zero, so the counter, a word of 32 bits, is never asked for less than zero. -/
theorem comment_tracks_nesting {mode : Mode} {lead : List Char} {depth : Nat}
    (hmode : mode.ReadsComment lead depth) (cs : List Char) (hne : lead ++ cs ≠ [])
    (hlimit : depth + opens (ofText cs) ≤ Offset.limit) :
    textOf (ofText cs) = cs ∧
    (StaysOpen depth (ofText cs) ∨
      ∃ before after, ofText cs = before ++ closing :: after ∧ ClosesBehind depth before ∧
        StaysOpen depth before) ∧
    (∀ before after, ofText cs = before ++ closing :: after → ClosesBehind depth before →
      StaysOpen depth before →
        mode.Takes .comment (lead ++ textOf (before ++ [closing])) (textOf after) .normal) ∧
    (StaysOpen depth (ofText cs) →
      ∃ hpos : 0 < depth + opens (ofText cs) - closes (ofText cs),
        mode.Takes .comment (lead ++ cs) []
          (.blockComment (depth + opens (ofText cs) - closes (ofText cs)) hpos)) ∧
    (∀ before, before <+: ofText cs → StaysOpen depth before →
      closes before < depth + opens before) ∧
    ∀ r : ByteReader, r.countComment (UInt32.ofNat depth) = some (r.blockComment depth) := by
  have htext := textOf_ofText cs
  have hread := areRead_ofText cs
  refine ⟨htext, staysOpen_or_exists depth _, ?_, ?_, fun _ _ h => h.closes_lt hmode.pos, ?_⟩
  · intro before after hsplit hcloses hstays
    rw [hsplit] at hread hlimit
    have hbefore : opens before ≤ opens (before ++ closing :: after) :=
      (List.sublist_append_left before _).count_le _
    have hbody := blockComment_of_closesBehind hread hmode.pos (by omega) hcloses hstays
    have hcut : textOf (before ++ closing :: after) =
        textOf (before ++ [closing]) ++ textOf after := by
      rw [← textOf_append, List.append_assoc, List.singleton_append]
    rw [hcut] at hbody
    apply hmode.takes
    · simp [textOf, CommentPiece.text]
    · rw [hbody, textOf_append, List.length_append]
      rfl
  · intro hstays
    have hpos : 0 < depth + opens (ofText cs) - closes (ofText cs) :=
      Nat.sub_pos_of_lt (hstays.closes_lt hmode.pos)
    have hbody := blockComment_of_staysOpen hread hmode.pos hlimit hstays
    rw [htext, ofDepth_of_pos hpos] at hbody
    refine ⟨hpos, hmode.takes hne ?_⟩
    rw [List.append_nil, hbody]
  · intro r
    have hword : (UInt32.ofNat depth).toNat = depth := by
      apply UInt32.toNat_ofNat_of_lt'
      rw [Offset.limit] at hlimit
      exact Nat.lt_of_le_of_lt (Nat.le_of_add_right_le hlimit) (by decide)
    have hne : UInt32.ofNat depth ≠ 0 := by
      intro hzero
      rw [hzero] at hword
      exact hmode.pos.ne hword
    rw [ByteReader.countComment_eq hne, hword]

/-- A slash behind the marker that opens a comment does not close it, nor does one behind the next,
and of two stars only the second is in a marker.  One close less, and the comment is open at the end
of the line. -/
theorem comment_tracks_nesting_between_half_markers :
    ReadsComment .normal ['/', '*'] 1 ∧
    1 + opens (ofText "/ /*/ **/ *//x".toList) ≤ Offset.limit ∧
    Takes .normal .comment "/*/ /*/ **/ */".toList "/x".toList .normal ∧
    ReadsComment (.blockComment 2 Nat.two_pos) [] 2 ∧
    2 + opens (ofText "*/ /**".toList) ≤ Offset.limit ∧
    Takes (.blockComment 2 Nat.two_pos) .comment "*/ /**".toList []
      (.blockComment 2 Nat.two_pos) := by
  have hlimit : 1 + opens (ofText "/ /*/ **/ *//x".toList) ≤ Offset.limit := by decide +kernel
  have hlimit' : 2 + opens (ofText "*/ /**".toList) ≤ Offset.limit := by decide +kernel
  have hinside := ReadsComment.inside Nat.two_pos
  obtain ⟨-, -, hclosed, -⟩ := comment_tracks_nesting .opened _ (by simp) hlimit
  obtain ⟨-, -, -, hopen, -⟩ := comment_tracks_nesting hinside _ (by simp) hlimit'
  have hpieces : ofText "*/ /**".toList = [closing, other ' ', opening, other '*'] := by
    decide +kernel
  have hstays : StaysOpen 2 (ofText "*/ /**".toList) := by
    rw [hpieces]
    simp
  obtain ⟨_, hall⟩ := hopen hstays
  refine ⟨.opened, hlimit, ?_, hinside, hlimit', hall⟩
  exact hclosed [other '/', other ' ', opening, other '/', other ' ', other '*', closing, other ' ']
    [other '/', other 'x'] (by decide +kernel) (by decide +kernel) (by simp)

end Mode
end PonyEditor
