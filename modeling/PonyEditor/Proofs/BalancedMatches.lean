import Mathlib.Data.List.Sort
import Mathlib.Tactic.Lemma
import PonyEditor.Proofs.BracketGroups

/-!
# Groups by counting

Which brackets make up a group can be told without scanning, by counting the openers and closers of
a stretch of tokens (`tally`).  Looking forth from a token its closer is the first place up to which
one more group is closed than opened (`closer?`), and its middles are the middles before that place
up to which as many are closed as opened; looking back it is the mirror image (`opener?`).  The
tokens told in this way are `matched`.

A scan counts the groups that are open where it is, and it stops when that count would fall below
zero.  So it is through a stretch, with none left open, exactly when no part of the stretch from its
start closes more than it opens and the whole is balanced (`level_stretch_iff`).  Counts change by
one from token to token, hence a part that closes more gives one that closes just one more
(`closers_le_openers`, `openers_le_closers`), and the places a scan finds are the matched ones
(`ahead_eq_forth`, `behind_eq_back`).  Nothing is asked of the tokens: openers may lack a closer,
closers an opener, and middles both.
-/

namespace PonyEditor
namespace Bracket

/-! ## Counting -/

/-- How many of the tokens from place `first` to before place `last` play a part. -/
def tally (side : Side) (sides : List Side) (first last : Nat) : Nat :=
  ((sides.take last).drop first).count side

variable {sides : List Side} {side : Side} {first between last i j k : Nat}

lemma tally_self (side : Side) (sides : List Side) (place : Nat) :
    tally side sides place place = 0 := by
  simp [tally]

/-- Counts of adjacent stretches add up. -/
lemma tally_add (side : Side) (sides : List Side) (hfirst : first ≤ between)
    (hlast : between ≤ last) :
    tally side sides first between + tally side sides between last =
      tally side sides first last := by
  have htake : sides.take between = (sides.take last).take between := by
    rw [List.take_take, Nat.min_eq_left hlast]
  have hdrop : ((sides.take last).take between).drop first ++ (sides.take last).drop between =
      (sides.take last).drop first := by
    rw [List.drop_take, ← Nat.add_sub_cancel' hfirst, Nat.add_sub_cancel_left, ← List.drop_drop,
      List.take_append_drop]
  rw [tally, tally, tally, htake, ← List.count_append, hdrop]

/-- The count of one place. -/
def tallyAt (side : Side) (sides : List Side) (place : Nat) : Nat :=
  if sides[place]? = some side then 1 else 0

lemma tally_place (side : Side) (sides : List Side) (place : Nat) :
    tally side sides place (place + 1) = tallyAt side sides place := by
  rw [tally, List.take_add_one, tallyAt]
  cases hget : sides[place]? with
  | none => simp
  | some other =>
      obtain ⟨hlt, -⟩ := List.getElem?_eq_some_iff.mp hget
      have hdrop : (sides.take place ++ [other]).drop place = [other] := by
        rw [List.drop_append_of_le_length (by simp; omega)]
        simp
      simp [hdrop, List.count_singleton]

/-- The count with one place more at the end. -/
lemma tally_succ (h : first ≤ last) :
    tally side sides first (last + 1) = tally side sides first last + tallyAt side sides last := by
  rw [← tally_add side sides h (Nat.le_succ last), tally_place]

/-- The count with one place more at the start. -/
lemma tally_pred (h : first < last) :
    tally side sides first last = tallyAt side sides first + tally side sides (first + 1) last := by
  rw [← tally_add side sides (Nat.le_succ first) h, tally_place]

/-! ## The places of a group -/

/-- After place `i`, up to and with `j`, one more group is closed than opened. -/
def ClosesAt (sides : List Side) (i j : Nat) : Prop :=
  i < j ∧ j < sides.length ∧
    tally .closer sides (i + 1) (j + 1) = tally .opener sides (i + 1) (j + 1) + 1

/-- From place `j` on, before `i`, one more group is opened than closed. -/
def OpensAt (sides : List Side) (i j : Nat) : Prop :=
  j < i ∧ tally .opener sides j i = tally .closer sides j i + 1

instance (sides : List Side) (i j : Nat) : Decidable (ClosesAt sides i j) :=
  inferInstanceAs (Decidable (_ ∧ _ ∧ _))

instance (sides : List Side) (i j : Nat) : Decidable (OpensAt sides i j) :=
  inferInstanceAs (Decidable (_ ∧ _))

/-- The first place where the group of a token closes. -/
def closer? (sides : List Side) (i : Nat) : Option Nat :=
  ((List.range sides.length).filter (ClosesAt sides i ·)).head?

/-- The last place where the group of a token opens. -/
def opener? (sides : List Side) (i : Nat) : Option Nat :=
  ((List.range i).filter (OpensAt sides i ·)).getLast?

/-- The places of a group after a token: the middles up to which all is balanced, as far as the
closer, and the closer. -/
def forth (sides : List Side) (i : Nat) : List Nat :=
  ((List.range sides.length).filter fun k =>
    i < k ∧ (∀ j ∈ closer? sides i, k < j) ∧ sides[k]? = some .middle ∧
      tally .opener sides (i + 1) (k + 1) = tally .closer sides (i + 1) (k + 1)) ++
    (closer? sides i).toList

/-- The places of a group before a token: the opener, and the middles after it from which on all is
balanced. -/
def back (sides : List Side) (i : Nat) : List Nat :=
  (opener? sides i).toList ++
    (List.range i).filter fun k =>
      (∀ j ∈ opener? sides i, j < k) ∧ sides[k]? = some .middle ∧
        tally .opener sides k i = tally .closer sides k i

/-- The places of the group of the token at a place.  Nothing of a group is before its opener or
after its closer. -/
def matched (sides : List Side) (i : Nat) : List Nat :=
  (if sides[i]? = some .opener then [] else back sides i) ++
    i :: (if sides[i]? = some .closer then [] else forth sides i)

lemma head?_eq_some_iff {places : List Nat} (hsorted : places.Pairwise (· < ·)) {place : Nat} :
    places.head? = some place ↔ place ∈ places ∧ ∀ other ∈ places, place ≤ other := by
  cases places with
  | nil => simp
  | cons p places =>
      have hlt := (List.pairwise_cons.mp hsorted).1
      simp only [List.head?_cons, Option.some.injEq, List.mem_cons, forall_eq_or_imp]
      constructor
      · rintro rfl
        exact ⟨.inl rfl, Nat.le_refl _, fun other hother => Nat.le_of_lt (hlt other hother)⟩
      · rintro ⟨rfl | hmem, hle, -⟩
        · rfl
        · exact absurd (hlt place hmem) (by omega)

lemma getLast?_eq_some_iff {places : List Nat} (hsorted : places.Pairwise (· < ·)) {place : Nat} :
    places.getLast? = some place ↔ place ∈ places ∧ ∀ other ∈ places, other ≤ place := by
  rcases List.eq_nil_or_concat' places with rfl | ⟨front, p, rfl⟩
  · simp
  · have hlt := (List.pairwise_append.mp hsorted).2.2
    rw [List.getLast?_concat, Option.some.injEq]
    constructor
    · rintro rfl
      refine ⟨by simp, fun other hother => ?_⟩
      rcases List.mem_append.mp hother with hfront | hlast
      · exact Nat.le_of_lt (hlt other hfront p (by simp))
      · exact Nat.le_of_eq (List.mem_singleton.mp hlast)
    · rintro ⟨hmem, hle⟩
      rcases List.mem_append.mp hmem with hfront | hlast
      · have := hlt place hfront p (by simp)
        exact absurd (hle p (by simp)) (by omega)
      · exact (List.mem_singleton.mp hlast).symm

lemma closer?_eq_some_iff :
    closer? sides i = some j ↔ ClosesAt sides i j ∧ ∀ k, ClosesAt sides i k → j ≤ k := by
  rw [closer?, head?_eq_some_iff (List.pairwise_lt_range.filter _)]
  simp only [List.mem_filter, List.mem_range, decide_eq_true_eq]
  constructor
  · rintro ⟨⟨-, hj⟩, hleast⟩
    exact ⟨hj, fun k hk => hleast k ⟨hk.2.1, hk⟩⟩
  · rintro ⟨hj, hleast⟩
    exact ⟨⟨hj.2.1, hj⟩, fun k hk => hleast k hk.2⟩

lemma opener?_eq_some_iff :
    opener? sides i = some j ↔ OpensAt sides i j ∧ ∀ k, OpensAt sides i k → k ≤ j := by
  rw [opener?, getLast?_eq_some_iff (List.pairwise_lt_range.filter _)]
  simp only [List.mem_filter, List.mem_range, decide_eq_true_eq]
  constructor
  · rintro ⟨⟨-, hj⟩, hgreatest⟩
    exact ⟨hj, fun k hk => hgreatest k ⟨hk.1, hk⟩⟩
  · rintro ⟨hj, hgreatest⟩
    exact ⟨⟨hj.1, hj⟩, fun k hk => hgreatest k hk.2⟩

/-- A place is before the closer if the group closes nowhere up to it. -/
lemma forall_closer?_iff : (∀ j ∈ closer? sides i, k < j) ↔ ∀ j ≤ k, ¬ClosesAt sides i j := by
  constructor
  · intro h j hj hcloses
    cases hcloser : closer? sides i with
    | none =>
        rw [closer?, List.head?_eq_none_iff, List.filter_eq_nil_iff] at hcloser
        exact hcloser j (List.mem_range.mpr hcloses.2.1) (decide_eq_true hcloses)
    | some place =>
        have hlt := h place hcloser
        have hle := (closer?_eq_some_iff.mp hcloser).2 j hcloses
        omega
  · intro h j hcloser
    by_contra hle
    exact h j (by omega) (closer?_eq_some_iff.mp hcloser).1

/-- A place is after the opener if the group opens nowhere from it on. -/
lemma forall_opener?_iff : (∀ j ∈ opener? sides i, j < k) ↔ ∀ j, k ≤ j → ¬OpensAt sides i j := by
  constructor
  · intro h j hj hopens
    cases hopener : opener? sides i with
    | none =>
        rw [opener?, List.getLast?_eq_none_iff, List.filter_eq_nil_iff] at hopener
        exact hopener j (List.mem_range.mpr hopens.1) (decide_eq_true hopens)
    | some place =>
        have hlt := h place hopener
        have hle := (opener?_eq_some_iff.mp hopener).2 j hopens
        omega
  · intro h j hopener
    by_contra hle
    exact h j (by omega) (opener?_eq_some_iff.mp hopener).1

/-! ## Counts along a stretch -/

/-- **Where a group has not closed, no more is closed than opened.** -/
lemma closers_le_openers (hk : k ≤ sides.length) (h : ∀ j < k, ¬ClosesAt sides i j) {n : Nat}
    (hi : i + 1 ≤ n) (hn : n ≤ k) :
    tally .closer sides (i + 1) n ≤ tally .opener sides (i + 1) n := by
  induction n, hi using Nat.le_induction with
  | base => rw [tally_self, tally_self]
  | succ n hi ih =>
      have hle := ih (by omega)
      have hcloses : ¬ClosesAt sides i n := h n hn
      have hcount : tally .closer sides (i + 1) (n + 1) ≠ tally .opener sides (i + 1) (n + 1) + 1 :=
        fun heq => hcloses ⟨hi, by omega, heq⟩
      have hplace : tallyAt .closer sides n ≤ 1 := by
        rw [tallyAt]
        split <;> omega
      rw [tally_succ hi, tally_succ hi] at hcount ⊢
      omega

/-- **Where a group has not opened, no more is opened than closed.** -/
lemma openers_le_closers (h : ∀ j, k < j → ¬OpensAt sides i j) {n : Nat} (hk : k < n) (hn : n ≤ i) :
    tally .opener sides n i ≤ tally .closer sides n i := by
  induction hn using Nat.decreasingInduction with
  | self => rw [tally_self, tally_self]
  | of_succ n hn ih =>
      have hle := ih (by omega)
      have hcount : tally .opener sides n i ≠ tally .closer sides n i + 1 :=
        fun heq => h n hk ⟨hn, heq⟩
      have hplace : tallyAt .opener sides n ≤ 1 := by
        rw [tallyAt]
        split <;> omega
      rw [tally_pred hn, tally_pred hn] at hcount ⊢
      omega

/-- A scan gets through tokens if it never meets more closers than openers and open groups. -/
lemma level_eq_some_iff {α : Type} {depth depth' : Nat} {xs : List (Side × α)} :
    level depth xs = some depth' ↔
      (∀ n, ((xs.map Prod.fst).take n).count .closer ≤
        depth + ((xs.map Prod.fst).take n).count .opener) ∧
      depth + (xs.map Prod.fst).count .opener = depth' + (xs.map Prod.fst).count .closer := by
  induction xs generalizing depth with
  | nil => simp [level]
  | cons x xs ih =>
      obtain ⟨side, a⟩ := x
      have hsplit (p : Nat → Prop) : (∀ n, p n) ↔ p 0 ∧ ∀ n, p (n + 1) :=
        ⟨fun h => ⟨h 0, fun n => h (n + 1)⟩, fun h n => n.casesOn h.1 h.2⟩
      rw [hsplit]
      cases side with
      | opener =>
          rw [level, ih]
          simp [Nat.add_assoc, Nat.add_comm 1]
      | middle =>
          rw [level, ih]
          simp
      | closer =>
          cases depth with
          | zero =>
              simp only [level, reduceCtorEq, false_iff]
              rintro ⟨⟨-, h⟩, -⟩
              have hfirst := h 0
              simp at hfirst
          | succ depth =>
              rw [level, ih]
              simp [Nat.add_right_comm _ 1, ← Nat.add_assoc]

/-- **A scan is through a stretch** when no part of it from its start closes more than it opens and
the whole is balanced. -/
lemma level_stretch_iff (h : first ≤ last) :
    level 0 ((sides.zipIdx.take last).drop first) = some 0 ↔
      (∀ n, first ≤ n → n ≤ last →
        tally .closer sides first n ≤ tally .opener sides first n) ∧
      tally .opener sides first last = tally .closer sides first last := by
  have hsides : ((sides.zipIdx.take last).drop first).map Prod.fst =
      (sides.take last).drop first := by
    rw [List.map_drop, List.map_take, List.zipIdx_map_fst]
  have hpart (n : Nat) : ((sides.take last).drop first).take n =
      (sides.take (min (first + n) last)).drop first := by
    rw [List.take_drop, List.take_take]
  rw [level_eq_some_iff, hsides, Nat.zero_add, Nat.zero_add]
  refine and_congr_left' ⟨?_, ?_⟩
  · intro hparts n hfirst hlast
    have hn := hparts (n - first)
    rw [hpart, Nat.add_sub_cancel' hfirst, Nat.min_eq_left hlast, Nat.zero_add] at hn
    exact hn
  · intro hparts n
    rw [hpart, Nat.zero_add]
    exact hparts (min (first + n) last) (by omega) (by omega)

/-- A scan forth is through a stretch when the group has not closed and the stretch is balanced. -/
lemma level_forth_iff (hik : i < k) (hk : k ≤ sides.length) :
    level 0 ((sides.zipIdx.take k).drop (i + 1)) = some 0 ↔
      (∀ j < k, ¬ClosesAt sides i j) ∧
        tally .opener sides (i + 1) k = tally .closer sides (i + 1) k := by
  have hle : i + 1 ≤ k := hik
  rw [level_stretch_iff hle]
  refine and_congr_left' ⟨?_, ?_⟩
  · rintro hparts j hjk ⟨hij, -, hcount⟩
    have hpart := hparts (j + 1) (by omega) hjk
    omega
  · intro hopen n hi hn
    exact closers_le_openers hk hopen hi hn

/-- A scan back is through a stretch when the group has not opened and the stretch is balanced. -/
lemma level_back_iff (hki : k < i) :
    level 0 ((sides.zipIdx.take i).drop (k + 1)) = some 0 ↔
      (∀ j, k < j → ¬OpensAt sides i j) ∧
        tally .opener sides (k + 1) i = tally .closer sides (k + 1) i := by
  have hle : k + 1 ≤ i := hki
  rw [level_stretch_iff hle]
  constructor
  -- a part from the start closes no more than it opens, so the rest opens no more than it closes
  · rintro ⟨hparts, hbalanced⟩
    refine ⟨?_, hbalanced⟩
    rintro j hkj ⟨hji, hcount⟩
    have hfrom : k + 1 ≤ j := hkj
    have hpart := hparts j hfrom (Nat.le_of_lt hji)
    have hopeners := tally_add .opener sides hfrom (Nat.le_of_lt hji)
    have hclosers := tally_add .closer sides hfrom (Nat.le_of_lt hji)
    omega
  · rintro ⟨hopen, hbalanced⟩
    refine ⟨?_, hbalanced⟩
    intro n hk hn
    have hrest := openers_le_closers hopen hk hn
    have hopeners := tally_add .opener sides hk hn
    have hclosers := tally_add .closer sides hk hn
    omega

/-! ## The places a scan finds -/

lemma zipIdx_eq (h : sides[k]? = some side) :
    sides.zipIdx = sides.zipIdx.take k ++ (side, k) :: sides.zipIdx.drop (k + 1) := by
  have hget : sides.zipIdx[k]? = some (side, k) := by simp [h]
  obtain ⟨hlt, heq⟩ := List.getElem?_eq_some_iff.mp hget
  rw [← heq, ← List.drop_eq_getElem_cons hlt, List.take_append_drop]

lemma split_zipIdx {before after : List (Side × Nat)}
    (h : sides.zipIdx = before ++ (side, k) :: after) :
    before = sides.zipIdx.take k ∧ k = before.length ∧ sides[k]? = some side := by
  have hget : sides.zipIdx[before.length]? = some (side, k) := by simp [h]
  rw [List.getElem?_zipIdx, Nat.zero_add] at hget
  obtain ⟨side', hside, heq⟩ := Option.map_eq_some_iff.mp hget
  obtain ⟨rfl, rfl⟩ := Prod.mk.inj heq
  exact ⟨by simp [h], rfl, hside⟩

/-- A scan forth finds a middle or a closer when it is through what comes before it. -/
lemma mem_ahead_iff :
    k ∈ ahead 0 (sides.zipIdx.drop (i + 1)) ↔
      i < k ∧ (∃ side, sides[k]? = some side ∧ side ≠ .opener) ∧
        level 0 ((sides.zipIdx.take k).drop (i + 1)) = some 0 := by
  constructor
  · intro hk
    obtain ⟨between, side, after, hsplit, hlevel, hside⟩ := exists_of_mem_ahead hk
    have hwhole :
        sides.zipIdx = (sides.zipIdx.take (i + 1) ++ between) ++ (side, k) :: after := by
      rw [List.append_assoc, ← hsplit, List.take_append_drop]
    have hlength : (sides.zipIdx.take (i + 1)).length = i + 1 := by
      have hdrop := congrArg List.length hsplit
      simp only [List.length_drop, List.length_append, List.length_cons] at hdrop
      rw [List.length_take]
      omega
    obtain ⟨hbefore, hplace, hget⟩ := split_zipIdx hwhole
    rw [List.length_append, hlength] at hplace
    refine ⟨by omega, ⟨side, hget, hside⟩, ?_⟩
    rw [← hbefore, List.drop_left' hlength]
    exact hlevel
  · rintro ⟨hik, ⟨side, hget, hside⟩, hlevel⟩
    have hlt : k < sides.length := (List.getElem?_eq_some_iff.mp hget).1
    rw [zipIdx_eq hget, List.drop_append_of_le_length (by simp; omega),
      ahead_append_cons hside hlevel]
    simp

/-- A scan back finds a middle or an opener when it is through what comes after it. -/
lemma mem_behind_iff (hi : i ≤ sides.length) :
    k ∈ behind (sides.zipIdx.take i) ↔
      k < i ∧ (∃ side, sides[k]? = some side ∧ side ≠ .closer) ∧
        level 0 ((sides.zipIdx.take i).drop (k + 1)) = some 0 := by
  constructor
  · intro hk
    obtain ⟨before, side, between, hsplit, hlevel, hside⟩ := exists_of_mem_behind hk
    have hwhole :
        sides.zipIdx = before ++ (side, k) :: (between ++ sides.zipIdx.drop i) := by
      rw [← List.cons_append, ← List.append_assoc, ← hsplit, List.take_append_drop]
    obtain ⟨-, hplace, hget⟩ := split_zipIdx hwhole
    have hlength := congrArg List.length hsplit
    simp only [List.length_take, List.length_zipIdx, List.length_append, List.length_cons]
      at hlength
    refine ⟨by omega, ⟨side, hget, hside⟩, ?_⟩
    rw [hsplit, hplace, List.drop_append, List.drop_eq_nil_of_le (by omega), List.nil_append,
      Nat.add_sub_cancel_left]
    exact hlevel
  · rintro ⟨hki, ⟨side, hget, hside⟩, hlevel⟩
    have hstretch : sides.zipIdx.take i =
        sides.zipIdx.take k ++ (side, k) :: (sides.zipIdx.take i).drop (k + 1) := by
      have hlt : k < (sides.zipIdx.take i).length := by simp; omega
      have heq : (sides.zipIdx.take i)[k] = (side, k) := by
        obtain ⟨-, rfl⟩ := List.getElem?_eq_some_iff.mp hget
        simp
      rw [← heq, ← List.drop_eq_getElem_cons hlt]
      nth_rewrite 1 [← List.take_append_drop k (sides.zipIdx.take i)]
      rw [List.take_take, Nat.min_eq_left (Nat.le_of_lt hki)]
    rw [hstretch, behind_append_cons hside hlevel]
    simp

/-- What a scan finds keeps the order of the tokens. -/
lemma ahead_sublist {α : Type} (depth : Nat) (xs : List (Side × α)) :
    (ahead depth xs).Sublist (xs.map Prod.snd) := by
  fun_induction ahead depth xs with
  | case1 => exact .slnil
  | case2 depth a rest ih => exact ih.cons a
  | case3 a rest ih => exact ih.cons_cons a
  | case4 depth a rest ih => exact ih.cons a
  | case5 a rest => exact (List.nil_sublist _).cons_cons a
  | case6 depth a rest ih => exact ih.cons a

lemma behind_sublist {α : Type} (xs : List (Side × α)) :
    (behind xs).Sublist (xs.map Prod.snd) := by
  have hmirror : (mirror xs).map Prod.snd = (xs.map Prod.snd).reverse := by
    simp [mirror, Function.comp_def]
  have hsub := (ahead_sublist 0 (mirror xs)).reverse
  rw [hmirror, List.reverse_reverse] at hsub
  exact hsub

lemma group_sublist {α : Type} (before : List (Side × α)) (cursor : Side × α)
    (after : List (Side × α)) :
    (group before cursor after).Sublist ((before ++ cursor :: after).map Prod.snd) := by
  rw [group, List.map_append, List.map_cons]
  refine List.Sublist.append ?_ (List.Sublist.cons_cons _ ?_)
  · split
    · exact List.nil_sublist _
    · exact behind_sublist before
  · split
    · exact List.nil_sublist _
    · exact ahead_sublist 0 after

lemma pairwise_zipIdx (sides : List Side) :
    (sides.zipIdx.map Prod.snd).Pairwise (· < ·) := by
  rw [List.zipIdx_map_snd]
  exact List.pairwise_lt_range'

/-! ## Scanning is counting -/

lemma tallyAt_self (h : sides[k]? = some side) : tallyAt side sides k = 1 := if_pos h

lemma tallyAt_of_ne {other : Side} (h : sides[k]? = some other) (hne : other ≠ side) :
    tallyAt side sides k = 0 :=
  if_neg fun hside => hne (Option.some.inj (h.symm.trans hside))

/-- At the place where a group closes stands a closer, and what is before it is balanced. -/
lemma closer?_eq_some_iff_balanced :
    closer? sides i = some k ↔ i < k ∧ sides[k]? = some .closer ∧
      (∀ j < k, ¬ClosesAt sides i j) ∧
        tally .opener sides (i + 1) k = tally .closer sides (i + 1) k := by
  rw [closer?_eq_some_iff]
  constructor
  · rintro ⟨⟨hik, hlt, hcount⟩, hleast⟩
    have hopen : ∀ j < k, ¬ClosesAt sides i j := by
      intro j hj hcloses
      have hle := hleast j hcloses
      omega
    have hle : i + 1 ≤ k := hik
    have hbefore := closers_le_openers (Nat.le_of_lt hlt) hopen hle (Nat.le_refl k)
    obtain ⟨other, hget⟩ : ∃ other, sides[k]? = some other :=
      ⟨sides[k], List.getElem?_eq_getElem hlt⟩
    rw [tally_succ hle, tally_succ hle] at hcount
    by_cases hother : other = .closer
    · subst hother
      rw [tallyAt_self hget, tallyAt_of_ne hget (by decide)] at hcount
      exact ⟨hik, hget, hopen, by omega⟩
    · rw [tallyAt_of_ne hget hother] at hcount
      omega
  · rintro ⟨hik, hget, hopen, hbalanced⟩
    have hlt : k < sides.length := (List.getElem?_eq_some_iff.mp hget).1
    have hle : i + 1 ≤ k := hik
    refine ⟨⟨hik, hlt, ?_⟩, ?_⟩
    · rw [tally_succ hle, tally_succ hle, tallyAt_self hget, tallyAt_of_ne hget (by decide),
        hbalanced]
    · intro j hcloses
      by_contra hlt
      exact hopen j (by omega) hcloses

/-- At the place where a group opens stands an opener, and what is after it is balanced. -/
lemma opener?_eq_some_iff_balanced :
    opener? sides i = some k ↔ k < i ∧ sides[k]? = some .opener ∧
      (∀ j, k < j → ¬OpensAt sides i j) ∧
        tally .opener sides (k + 1) i = tally .closer sides (k + 1) i := by
  rw [opener?_eq_some_iff]
  constructor
  · rintro ⟨⟨hki, hcount⟩, hgreatest⟩
    have hopen : ∀ j, k < j → ¬OpensAt sides i j := by
      intro j hj hopens
      have hle := hgreatest j hopens
      omega
    have hle : k + 1 ≤ i := hki
    have hafter := openers_le_closers hopen (Nat.lt_add_one k) hle
    rw [tally_pred hki, tally_pred hki] at hcount
    cases hget : sides[k]? with
    | none =>
        rw [tallyAt, if_neg (by simp [hget])] at hcount
        omega
    | some other =>
        by_cases hother : other = .opener
        · subst hother
          rw [tallyAt_self hget, tallyAt_of_ne hget (by decide)] at hcount
          exact ⟨hki, rfl, hopen, by omega⟩
        · rw [tallyAt_of_ne hget hother] at hcount
          omega
  · rintro ⟨hki, hget, hopen, hbalanced⟩
    refine ⟨⟨hki, ?_⟩, ?_⟩
    · rw [tally_pred hki, tally_pred hki, tallyAt_self hget, tallyAt_of_ne hget (by decide),
        hbalanced]
      omega
    · intro j hopens
      by_contra hlt
      exact hopen j (by omega) hopens

lemma mem_forth_iff :
    k ∈ forth sides i ↔
      i < k ∧ (∃ side, sides[k]? = some side ∧ side ≠ .opener) ∧
        (∀ j < k, ¬ClosesAt sides i j) ∧
          tally .opener sides (i + 1) k = tally .closer sides (i + 1) k := by
  rw [forth, List.mem_append, Option.mem_toList, closer?_eq_some_iff_balanced]
  simp only [List.mem_filter, List.mem_range, decide_eq_true_eq, forall_closer?_iff]
  constructor
  · rintro (⟨-, hik, hopen, hget, hbalanced⟩ | ⟨hik, hget, hopen, hbalanced⟩)
    · have hle : i + 1 ≤ k := hik
      rw [tally_succ hle, tally_succ hle, tallyAt_of_ne hget (by decide),
        tallyAt_of_ne hget (by decide)] at hbalanced
      exact ⟨hik, ⟨.middle, hget, by decide⟩, fun j hj => hopen j (Nat.le_of_lt hj), hbalanced⟩
    · exact ⟨hik, ⟨.closer, hget, by decide⟩, hopen, hbalanced⟩
  · rintro ⟨hik, ⟨side, hget, hside⟩, hopen, hbalanced⟩
    cases side with
    | opener => exact absurd rfl hside
    | middle =>
        have hle : i + 1 ≤ k := hik
        have hupto :
            tally .opener sides (i + 1) (k + 1) = tally .closer sides (i + 1) (k + 1) := by
          rw [tally_succ hle, tally_succ hle, tallyAt_of_ne hget (by decide),
            tallyAt_of_ne hget (by decide), hbalanced]
        refine .inl ⟨(List.getElem?_eq_some_iff.mp hget).1, hik, ?_, hget, hupto⟩
        intro j hj hcloses
        rcases Nat.lt_or_eq_of_le hj with hlt | rfl
        · exact hopen j hlt hcloses
        · have hcount := hcloses.2.2
          omega
    | closer => exact .inr ⟨hik, hget, hopen, hbalanced⟩

lemma mem_back_iff :
    k ∈ back sides i ↔
      k < i ∧ (∃ side, sides[k]? = some side ∧ side ≠ .closer) ∧
        (∀ j, k < j → ¬OpensAt sides i j) ∧
          tally .opener sides (k + 1) i = tally .closer sides (k + 1) i := by
  rw [back, List.mem_append, Option.mem_toList, opener?_eq_some_iff_balanced]
  simp only [List.mem_filter, List.mem_range, decide_eq_true_eq, forall_opener?_iff]
  constructor
  · rintro (⟨hki, hget, hopen, hbalanced⟩ | ⟨hki, hopen, hget, hbalanced⟩)
    · exact ⟨hki, ⟨.opener, hget, by decide⟩, hopen, hbalanced⟩
    · rw [tally_pred hki, tally_pred hki, tallyAt_of_ne hget (by decide),
        tallyAt_of_ne hget (by decide), Nat.zero_add, Nat.zero_add] at hbalanced
      exact ⟨hki, ⟨.middle, hget, by decide⟩, fun j hj => hopen j (Nat.le_of_lt hj), hbalanced⟩
  · rintro ⟨hki, ⟨side, hget, hside⟩, hopen, hbalanced⟩
    cases side with
    | opener => exact .inl ⟨hki, hget, hopen, hbalanced⟩
    | middle =>
        have hfrom : tally .opener sides k i = tally .closer sides k i := by
          rw [tally_pred hki, tally_pred hki, tallyAt_of_ne hget (by decide),
            tallyAt_of_ne hget (by decide), hbalanced]
        refine .inr ⟨hki, ?_, hget, hfrom⟩
        intro j hj hopens
        rcases Nat.lt_or_eq_of_le hj with hlt | rfl
        · exact hopen j hlt hopens
        · have hcount := hopens.2
          omega
    | closer => exact absurd rfl hside

lemma pairwise_forth (sides : List Side) (i : Nat) : (forth sides i).Pairwise (· < ·) := by
  refine List.pairwise_append.mpr ⟨List.pairwise_lt_range.filter _, ?_, ?_⟩
  · cases closer? sides i <;> simp
  · intro k hk j hj
    have hbefore := of_decide_eq_true (List.mem_filter.mp hk).2
    exact hbefore.2.1 j (Option.mem_toList.mp hj)

lemma pairwise_back (sides : List Side) (i : Nat) : (back sides i).Pairwise (· < ·) := by
  refine List.pairwise_append.mpr ⟨?_, List.pairwise_lt_range.filter _, ?_⟩
  · cases opener? sides i <;> simp
  · intro j hj k hk
    have hafter := of_decide_eq_true (List.mem_filter.mp hk).2
    exact hafter.1 j (Option.mem_toList.mp hj)

/-- **A scan forth finds the places told by counting.** -/
lemma ahead_eq_forth (sides : List Side) (i : Nat) :
    ahead 0 (sides.zipIdx.drop (i + 1)) = forth sides i := by
  have hsorted : (ahead 0 (sides.zipIdx.drop (i + 1))).Pairwise (· < ·) := by
    have hsub := (ahead_sublist 0 _).trans ((List.drop_sublist (i + 1) sides.zipIdx).map Prod.snd)
    exact List.Pairwise.sublist hsub (pairwise_zipIdx sides)
  refine hsorted.eq_of_mem_iff (pairwise_forth sides i) fun k => ?_
  rw [mem_ahead_iff, mem_forth_iff]
  refine and_congr_right fun hik => and_congr_right ?_
  rintro ⟨side, hget, -⟩
  exact level_forth_iff hik (Nat.le_of_lt (List.getElem?_eq_some_iff.mp hget).1)

/-- **A scan back finds the places told by counting.** -/
lemma behind_eq_back (hi : i ≤ sides.length) : behind (sides.zipIdx.take i) = back sides i := by
  have hsorted : (behind (sides.zipIdx.take i)).Pairwise (· < ·) := by
    have hsub := (behind_sublist _).trans ((List.take_sublist i sides.zipIdx).map Prod.snd)
    exact List.Pairwise.sublist hsub (pairwise_zipIdx sides)
  refine hsorted.eq_of_mem_iff (pairwise_back sides i) fun k => ?_
  rw [mem_behind_iff hi, mem_back_iff]
  exact and_congr_right fun hki => and_congr_right fun _ => level_back_iff hki

/-- **The group of a token is matched by counting.** -/
lemma group_eq_matched (h : sides[i]? = some side) :
    group (sides.zipIdx.take i) (side, i) (sides.zipIdx.drop (i + 1)) = matched sides i := by
  have hi : i ≤ sides.length := Nat.le_of_lt (List.getElem?_eq_some_iff.mp h).1
  rw [group, matched, ahead_eq_forth, behind_eq_back hi, h]
  simp only [Option.some.injEq]

/-- The labels of a group are those of the matched places. -/
lemma map_matched {α : Type} {ts before after : List (Side × α)} {cursor : Side × α}
    (h : ts = before ++ cursor :: after) :
    (matched (ts.map Prod.fst) before.length).map (fun k => ts[k]?.map Prod.snd) =
      (group before cursor after).map some := by
  have hcursor : ts[before.length]? = some cursor := by simp [h]
  have hnumbered : (ts.map Prod.fst).zipIdx.map (Prod.map id fun k => ts[k]?.map Prod.snd) =
      ts.map (Prod.map id some) := by
    apply List.ext_getElem?
    intro n
    cases hget : ts[n]? with
    | none => simp [hget]
    | some t => simp [hget, Prod.map]
  have hside : (ts.map Prod.fst)[before.length]? = some cursor.1 := by simp [hcursor]
  have hbefore : ts.take before.length = before := by simp [h]
  have hafter : ts.drop (before.length + 1) = after := by simp [h]
  rw [← group_eq_matched hside, ← group_map, ← group_map, List.map_take, List.map_drop, hnumbered,
    ← List.map_take, ← List.map_drop, hbefore, hafter, hcursor]
  rfl

/-- Brackets of one family keep the order of the tokens. -/
lemma ofFamily_sublist (family : Family) (tokens : List Token) :
    ((ofFamily family tokens).map Prod.snd).Sublist (tokens.map Token.span) := by
  induction tokens with
  | nil => exact .slnil
  | cons t tokens ih =>
      rw [ofFamily_cons]
      cases sideIn? family t with
      | none => exact ih.cons t.span
      | some side => exact ih.cons_cons t.span

end Bracket

/-! ## Spans in order -/

namespace Span

variable {spans : List Span} {span : Span}

/-- A span with a byte is listed at one place. -/
lemma place_unique (h : spans.Pairwise fun s t => s.stop ≤ t.start) (hbyte : span.start < span.stop)
    {k l : Nat} (hk : spans[k]? = some span) (hl : spans[l]? = some span) : k = l := by
  obtain ⟨hk', hkeq⟩ := List.getElem?_eq_some_iff.mp hk
  obtain ⟨hl', hleq⟩ := List.getElem?_eq_some_iff.mp hl
  have hordered := List.pairwise_iff_getElem.mp h
  rcases Nat.lt_trichotomy k l with hlt | heq | hlt
  · have hle := hordered k l hk' hl' hlt
    rw [hkeq, hleq] at hle
    omega
  · exact heq
  · have hle := hordered l k hl' hk' hlt
    rw [hkeq, hleq] at hle
    omega

/-- A span with a byte is listed once. -/
lemma count_eq_one (h : spans.Pairwise fun s t => s.stop ≤ t.start) (hbyte : span.start < span.stop)
    (hmem : span ∈ spans) : spans.count span = 1 := by
  obtain ⟨before, after, rfl⟩ := List.append_of_mem hmem
  obtain ⟨-, hafter, hbefore⟩ := List.pairwise_append.mp h
  have hnot : span ∉ before := by
    intro hspan
    have hle := hbefore span hspan span List.mem_cons_self
    omega
  have hnot' : span ∉ after := by
    intro hspan
    have hle := (List.pairwise_cons.mp hafter).1 span hspan
    omega
  simp [List.count_append, List.count_eq_zero.mpr hnot, List.count_eq_zero.mpr hnot']

end Span

/-! ## Groups in a document -/

namespace View

open PonyEditor.Bracket (ofFamily matched Family Side)

variable {σ : Type} [Lined σ] {v : View σ} {family : Family} {side : Side} {cursor : Token}
  {offset line : Nat}

lemma pairwise_ofFamily (hv : Lined.Exact v.source) (family : Family) :
    ((ofFamily family v.tokens).map Prod.snd).Pairwise fun s t => s.stop ≤ t.start :=
  List.Pairwise.sublist (Bracket.ofFamily_sublist family v.tokens)
    (List.pairwise_map.mpr (tokens_inOrder hv).pairwise)

lemma mem_tokens_of_tokenAt? (h : v.tokenAt? offset = some (line, cursor)) : cursor ∈ v.tokens := by
  have hmem := (mem_tokensOf_of_tokenAt? h).1
  exact List.mem_flatMap.mpr ⟨line, List.mem_range.mpr (lt_lineCount_of_mem_tokensOf hmem), hmem⟩

/-- The token found at an offset cuts the brackets of its family in two, and its group is the one
found from there. -/
lemma exists_group_of_tokenAt? (hv : Lined.Exact v.source)
    (hcursor : v.tokenAt? offset = some (line, cursor))
    (hbracket : cursor.kind.bracket? = some (family, side))
    (hfits : side = .opener ∨ v.fitsAt offset = true) :
    ∃ before after, ofFamily family v.tokens = before ++ (side, cursor.span) :: after ∧
      v.bracketGroup offset = Bracket.group before (side, cursor.span) after := by
  obtain ⟨before, after, hsplit⟩ := List.append_of_mem (mem_tokens_of_tokenAt? hcursor)
  refine ⟨ofFamily family before, ofFamily family after, ?_, ?_⟩
  · rw [hsplit, Bracket.ofFamily_append_cons hbracket]
  · exact bracketGroup_eq hv hsplit hbracket (mem_tokensOf_of_tokenAt? hcursor).2 hfits

/-- **The group at an offset is the one matched by counting** from the place of the token there
among the brackets of its family. -/
lemma exists_bracketGroup_eq (hv : Lined.Exact v.source)
    (hcursor : v.tokenAt? offset = some (line, cursor))
    (hbracket : cursor.kind.bracket? = some (family, side))
    (hfits : side = .opener ∨ v.fitsAt offset = true) :
    ∃ i, (ofFamily family v.tokens)[i]? = some (side, cursor.span) ∧
      (v.bracketGroup offset).map some =
        (matched ((ofFamily family v.tokens).map Prod.fst) i).map fun k =>
          (ofFamily family v.tokens)[k]?.map Prod.snd := by
  obtain ⟨before, after, hfamily, hgroup⟩ := exists_group_of_tokenAt? hv hcursor hbracket hfits
  refine ⟨before.length, by simp [hfamily], ?_⟩
  rw [hgroup, Bracket.map_matched hfamily]

lemma bracketGroup_sublist (hv : Lined.Exact v.source)
    (hcursor : v.tokenAt? offset = some (line, cursor))
    (hbracket : cursor.kind.bracket? = some (family, side))
    (hfits : side = .opener ∨ v.fitsAt offset = true) :
    (v.bracketGroup offset).Sublist ((ofFamily family v.tokens).map Prod.snd) := by
  obtain ⟨before, after, hfamily, hgroup⟩ := exists_group_of_tokenAt? hv hcursor hbracket hfits
  rw [hgroup, hfamily]
  exact Bracket.group_sublist _ _ _

/-- The token found at an offset is listed at one place among the brackets of its family. -/
lemma cursor_place_unique (hv : Lined.Exact v.source)
    (hcursor : v.tokenAt? offset = some (line, cursor)) {i k : Nat} {side side' : Side}
    (hi : (ofFamily family v.tokens)[i]? = some (side, cursor.span))
    (hk : (ofFamily family v.tokens)[k]? = some (side', cursor.span)) : k = i := by
  have hbyte := Span.start_lt_stop_of_contains (mem_tokensOf_of_tokenAt? hcursor).2
  apply Span.place_unique (pairwise_ofFamily hv family) hbyte
  · simp [hk]
  · simp [hi]

/-- **Only the brackets of its family have a say in a group.** -/
lemma bracketGroup_eq_of_ofFamily_eq {τ : Type} [Lined τ] {w : View τ} {cursor' : Token}
    {side' : Side} {offset' line' : Nat} (hv : Lined.Exact v.source) (hw : Lined.Exact w.source)
    (hcursor : v.tokenAt? offset = some (line, cursor))
    (hbracket : cursor.kind.bracket? = some (family, side))
    (hfits : side = .opener ∨ v.fitsAt offset = true)
    (hcursor' : w.tokenAt? offset' = some (line', cursor'))
    (hbracket' : cursor'.kind.bracket? = some (family, side'))
    (hfits' : side' = .opener ∨ w.fitsAt offset' = true)
    (hspan : cursor'.span = cursor.span)
    (hfamily : ofFamily family w.tokens = ofFamily family v.tokens) :
    w.bracketGroup offset' = v.bracketGroup offset := by
  obtain ⟨i, hi, hgroup⟩ := exists_bracketGroup_eq hv hcursor hbracket hfits
  obtain ⟨i', hi', hgroup'⟩ := exists_bracketGroup_eq hw hcursor' hbracket' hfits'
  rw [hfamily, hspan] at hi'
  obtain rfl := cursor_place_unique hv hcursor hi hi'
  rw [hfamily, ← hgroup] at hgroup'
  exact List.map_injective_iff.mpr (Option.some_injective Span) hgroup'

end View

/-! ## The law for documents -/

namespace Document

open PonyEditor.Bracket (ofFamily matched closer? opener? ClosesAt OpensAt Family Side)

/-- **Matching is balanced nesting.**  For an offset inside a bracket of a document that is an
opener or whose line ends within the limit, list the brackets of its family.  The bracket is at one
place of the list, and the group found has the spans of the places `matched` by counting from there:
to the first place where one more group has closed than opened, back to the last where one more has
opened than closed, and between them the middles with all balanced in between.  Places grow and
spans follow each other, and the bracket at the offset is found once.  Nothing else in the document
has a say in it, nor which byte of the bracket the offset is at.  In a text within the limit all
lines end within it. -/
theorem bracketGroup_is_balanced_match (text : String) (calls : List Call) {offset line : Nat}
    {cursor : Token} {family : Family} {side : Side}
    (hcursor : ((ofText text).run calls).view.tokenAt? offset = some (line, cursor))
    (hbracket : cursor.kind.bracket? = some (family, side))
    (hfits : side = .opener ∨ ((ofText text).run calls).view.fitsAt offset = true) :
    let d := (ofText text).run calls
    let ts := ofFamily family d.view.tokens
    let sides := ts.map Prod.fst
    (d.text.utf8ByteSize ≤ Offset.limit → ∀ offset', d.view.fitsAt offset' = true) ∧
    ∃ i, ts[i]? = some (side, cursor.span) ∧
      (∀ k side', ts[k]? = some (side', cursor.span) → k = i) ∧
      (d.bracketGroup offset).map some = (matched sides i).map (fun k => ts[k]?.map Prod.snd) ∧
      (∀ j, closer? sides i = some j ↔
        ClosesAt sides i j ∧ ∀ k, ClosesAt sides i k → j ≤ k) ∧
      (∀ j, opener? sides i = some j ↔
        OpensAt sides i j ∧ ∀ k, OpensAt sides i k → k ≤ j) ∧
      (matched sides i).Pairwise (· < ·) ∧
      (d.bracketGroup offset).Pairwise (fun s t => s.stop ≤ t.start) ∧
      (d.bracketGroup offset).count cursor.span = 1 ∧
      (∀ offset', cursor.span.contains offset' = true →
        d.bracketGroup offset' = d.bracketGroup offset) ∧
      ∀ text' calls' offset' line' cursor' side',
        ((ofText text').run calls').view.tokenAt? offset' = some (line', cursor') →
        cursor'.kind.bracket? = some (family, side') →
        side' = .opener ∨ ((ofText text').run calls').view.fitsAt offset' = true →
        cursor'.span = cursor.span →
        ofFamily family ((ofText text').run calls').view.tokens = ts →
        ((ofText text').run calls').bracketGroup offset' = d.bracketGroup offset := by
  intro d ts sides
  obtain ⟨hd, -⟩ := run_spec (inStep_ofText text) calls
  have hv : Lined.Exact d.view.source := hd.exact
  obtain ⟨i, hi, hgroup⟩ := View.exists_bracketGroup_eq hv hcursor hbracket hfits
  obtain ⟨hmem, hoffset⟩ := View.mem_tokensOf_of_tokenAt? hcursor
  have hsides : sides[i]? = some side := by simp [sides, ts, d, hi]
  have hordered : (d.bracketGroup offset).Pairwise fun s t => s.stop ≤ t.start :=
    List.Pairwise.sublist (View.bracketGroup_sublist hv hcursor hbracket hfits)
      (View.pairwise_ofFamily hv family)
  refine ⟨?_, i, hi, ?_, hgroup, ?_, ?_, ?_, hordered, ?_, ?_, ?_⟩
  · intro hlimit
    rw [Text.utf8ByteSize_eq] at hlimit
    exact View.fitsAt_of_width_le hv hlimit
  · intro k side' hk
    exact View.cursor_place_unique hv hcursor hi hk
  · exact fun j => Bracket.closer?_eq_some_iff
  · exact fun j => Bracket.opener?_eq_some_iff
  · rw [← Bracket.group_eq_matched hsides]
    have hsub := Bracket.group_sublist (sides.zipIdx.take i) (side, i) (sides.zipIdx.drop (i + 1))
    rw [← Bracket.zipIdx_eq hsides] at hsub
    exact List.Pairwise.sublist hsub (Bracket.pairwise_zipIdx sides)
  · apply Span.count_eq_one hordered (Span.start_lt_stop_of_contains hoffset)
    exact View.span_mem_bracketGroup hv (View.mem_tokens_of_tokenAt? hcursor) hbracket hoffset
  · intro offset' hoffset'
    have hcursor' := (View.tokenAt?_eq_some_iff hv).mpr ⟨hmem, hoffset'⟩
    have hfits' : side = .opener ∨ d.view.fitsAt offset' = true := by
      rwa [View.fitsAt_of_tokenAt? hcursor', ← View.fitsAt_of_tokenAt? hcursor]
    exact View.bracketGroup_eq_of_ofFamily_eq hv hv hcursor hbracket hfits hcursor' hbracket hfits'
      rfl rfl
  · intro text' calls' offset' line' cursor' side' hcursor' hbracket' hfits' hspan hfamily
    obtain ⟨hd', -⟩ := run_spec (inStep_ofText text') calls'
    exact View.bracketGroup_eq_of_ofFamily_eq hv hd'.exact hcursor hbracket hfits hcursor'
      hbracket' hfits' hspan hfamily

/-- A document with an end too many, a middle without opener and a choice that is not closed: from
the last word the choice around the nested one is found, whose middle and end do not count. -/
theorem bracketGroup_is_balanced_match_unclosed :
    let d := (ofText "end else a end\nif b\nelse").run [.replace ⟨2, 2, ["if c then d end"]⟩]
    d.bracketGroup 37 = [⟨15, 17⟩, ⟨36, 40⟩] ∧
    (d.bracketGroup 37).count ⟨36, 40⟩ = 1 ∧ d.bracketGroup 39 = d.bracketGroup 37 := by
  intro d
  have hcursor : d.view.tokenAt? 37 = some (3, ⟨.kwElse, ⟨36, 40⟩⟩) := by decide +kernel
  have hbracket : Kind.bracket? .kwElse = some (.block, .middle) := rfl
  have hfits : d.view.fitsAt 37 = true := by decide +kernel
  obtain ⟨-, i, -, -, -, -, -, -, -, hcount, hsame, -⟩ := bracketGroup_is_balanced_match
    "end else a end\nif b\nelse" [.replace ⟨2, 2, ["if c then d end"]⟩] hcursor hbracket
    (.inr hfits)
  exact ⟨by decide +kernel, hcount, hsame 39 rfl⟩

/-- The limit on the line is needed.  In a text of one byte more than the limit, counting from the
closer of a pair matches its opener, but the group found there is without it. -/
theorem bracketGroup_is_no_balanced_match_past_limit :
    (underSlashes 4294967292).view.tokenAt? 4294967294 =
      some (1, ⟨.rparen, ⟨4294967294, 4294967295⟩⟩) ∧
    ofFamily .paren (underSlashes 4294967292).view.tokens =
      [(.opener, ⟨4294967293, 4294967294⟩), (.closer, ⟨4294967294, 4294967295⟩)] ∧
    matched [.opener, .closer] 1 = [0, 1] ∧
    (underSlashes 4294967292).bracketGroup 4294967294 = [⟨4294967294, 4294967295⟩] := by
  have hwidth : 4294967292 = 4294967292 := rfl
  refine ⟨tokenAt?_underSlashes hwidth, ?_, by decide, (bracketGroup_underSlashes hwidth).2⟩
  rw [tokens_underSlashes hwidth]
  rfl

end Document
end PonyEditor
