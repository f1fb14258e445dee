import Mathlib.Tactic.Lemma
import PonyEditor.Bracket

/-!
# Nested groups

The tokens of one family of brackets, as a list of parts with something to tell the tokens apart,
their labels.  Nothing is said about the list: openers may lack a closer, and closers an opener.

A stretch of it is told by what it does to the number of nested groups open around it (`level`).
One that closes no more than it opens has no say in what a scan finds after it (`ahead_append`),
and read backwards it does the same in reverse (`level_mirror`, `ahead_mirror`).  So the scans from
two tokens of a group, with such a stretch between them, find the same (`group_append`), and the
group of a token is the group of each of its members (`exists_group_eq_of_mem`).

A group is closed when the scan from its opener meets a closer.  It lies between the two
(`Closed.bounds`), and no member of the group of an earlier opener is between them
(`Closed.outside`).

Labels are only carried along (`group_map`).
-/

namespace PonyEditor
namespace Bracket

variable {α β : Type}

/-! ## Levels -/

/-- The number of nested groups open after the tokens, if `depth` were before them.  A closer with
none open closes the group around, and then there is no such number. -/
def level : Nat → List (Side × α) → Option Nat
  | depth, [] => some depth
  | depth, (.opener, _) :: rest => level (depth + 1) rest
  | depth, (.middle, _) :: rest => level depth rest
  | 0, (.closer, _) :: _ => none
  | depth + 1, (.closer, _) :: rest => level depth rest

lemma level_append {depth depth' : Nat} {xs : List (Side × α)} (h : level depth xs = some depth')
    (ys : List (Side × α)) : level depth (xs ++ ys) = level depth' ys := by
  fun_induction level depth xs with
  | case1 depth =>
      obtain rfl := Option.some.inj h
      rfl
  | case2 depth a rest ih => exact ih h
  | case3 depth a rest ih => exact ih h
  | case4 => exact nomatch h
  | case5 depth a rest ih => exact ih h

/-- What a scan finds in a stretch that does not close the group, and what it finds after it. -/
lemma ahead_append {depth depth' : Nat} {xs : List (Side × α)} (h : level depth xs = some depth')
    (ys : List (Side × α)) : ahead depth (xs ++ ys) = ahead depth xs ++ ahead depth' ys := by
  induction xs generalizing depth with
  | nil =>
      obtain rfl := Option.some.inj h
      rfl
  | cons x xs ih =>
      obtain ⟨side, a⟩ := x
      cases side with
      | opener => exact ih h
      | middle =>
          cases depth with
          | zero => exact congrArg (a :: ·) (ih h)
          | succ depth => exact ih h
      | closer =>
          cases depth with
          | zero => exact nomatch h
          | succ depth => exact ih h

/-! ## Reading backwards -/

/-- The tokens read backwards. -/
def mirror (xs : List (Side × α)) : List (Side × α) :=
  xs.reverse.map fun (side, a) => (side.flip, a)

lemma behind_eq (xs : List (Side × α)) : behind xs = (ahead 0 (mirror xs)).reverse := rfl

@[simp] lemma mirror_nil : mirror ([] : List (Side × α)) = [] := rfl

@[simp] lemma mirror_append (xs ys : List (Side × α)) :
    mirror (xs ++ ys) = mirror ys ++ mirror xs := by
  simp [mirror]

@[simp] lemma mirror_cons (side : Side) (a : α) (xs : List (Side × α)) :
    mirror ((side, a) :: xs) = mirror xs ++ [(side.flip, a)] := by
  simp [mirror]

@[simp] lemma mirror_mirror (xs : List (Side × α)) : mirror (mirror xs) = xs := by
  induction xs with
  | nil => rfl
  | cons x xs ih =>
      obtain ⟨side, a⟩ := x
      rw [mirror_cons, mirror_append, mirror_cons, Side.flip_flip, ih]
      rfl

/-- Backwards, a stretch leads from the level after it to the one before it. -/
lemma level_mirror {depth depth' : Nat} {xs : List (Side × α)} (h : level depth xs = some depth') :
    level depth' (mirror xs) = some depth := by
  induction xs generalizing depth with
  | nil =>
      obtain rfl := Option.some.inj h
      rfl
  | cons x xs ih =>
      obtain ⟨side, a⟩ := x
      rw [mirror_cons]
      cases side with
      | opener => exact level_append (ih h) _
      | middle => exact level_append (ih h) _
      | closer =>
          cases depth with
          | zero => exact nomatch h
          | succ depth => exact level_append (ih h) _

/-- Backwards, a stretch holds the same middles. -/
lemma ahead_mirror {depth depth' : Nat} {xs : List (Side × α)} (h : level depth xs = some depth') :
    ahead depth' (mirror xs) = (ahead depth xs).reverse := by
  induction xs generalizing depth with
  | nil =>
      obtain rfl := Option.some.inj h
      cases depth <;> rfl
  | cons x xs ih =>
      obtain ⟨side, a⟩ := x
      rw [mirror_cons]
      cases side with
      | opener =>
          have hlevel : level (depth + 1) xs = some depth' := h
          rw [ahead_append (level_mirror hlevel), ih hlevel]
          exact List.append_nil _
      | middle =>
          have hlevel : level depth xs = some depth' := h
          rw [ahead_append (level_mirror hlevel), ih hlevel]
          cases depth with
          | zero => exact (List.reverse_cons).symm
          | succ depth => exact List.append_nil _
      | closer =>
          cases depth with
          | zero => exact nomatch h
          | succ depth =>
              have hlevel : level depth xs = some depth' := h
              rw [ahead_append (level_mirror hlevel), ih hlevel]
              exact List.append_nil _

/-! ## Groups -/

/-- The group of a token, given the tokens before and after it. -/
def group (before : List (Side × α)) (cursor : Side × α) (after : List (Side × α)) : List α :=
  (if cursor.1 = .opener then [] else behind before) ++
    cursor.2 :: (if cursor.1 = .closer then [] else ahead 0 after)

lemma cursor_mem_group (before : List (Side × α)) (cursor : Side × α) (after : List (Side × α)) :
    cursor.2 ∈ group before cursor after :=
  List.mem_append_right _ List.mem_cons_self

/-- A scan that comes to a middle or a closer of its own group. -/
lemma ahead_cons_of_ne_opener {side : Side} (hside : side ≠ .opener) (a : α)
    (rest : List (Side × α)) :
    ahead 0 ((side, a) :: rest) = a :: if side = .closer then [] else ahead 0 rest := by
  cases side with
  | opener => exact absurd rfl hside
  | middle => rfl
  | closer => rfl

lemma Side.flip_ne_opener {side : Side} (h : side ≠ .closer) : side.flip ≠ .opener := by
  cases side <;> simp_all [Side.flip]

lemma Side.flip_eq_closer_iff {side : Side} : side.flip = .closer ↔ side = .opener := by
  cases side <;> simp [Side.flip]

/-- A scan comes to a middle or a closer of its own group with nothing open before it. -/
lemma ahead_append_cons {side : Side} (hside : side ≠ .opener) {depth : Nat}
    {between : List (Side × α)} (hlevel : level depth between = some 0) (a : α)
    (after : List (Side × α)) :
    ahead depth (between ++ (side, a) :: after) =
      ahead depth between ++ a :: if side = .closer then [] else ahead 0 after := by
  rw [ahead_append hlevel, ahead_cons_of_ne_opener hside]

/-- Backwards, a scan comes to a middle or an opener of its own group. -/
lemma behind_append_cons {side : Side} (hside : side ≠ .closer) {between : List (Side × α)}
    (hlevel : level 0 between = some 0) (before : List (Side × α)) (a : α) :
    behind (before ++ (side, a) :: between) =
      (if side = .opener then [] else behind before) ++ a :: ahead 0 between := by
  rw [behind_eq, mirror_append, mirror_cons, List.append_assoc, List.singleton_append,
    ahead_append_cons (Side.flip_ne_opener hside) (level_mirror hlevel), ahead_mirror hlevel]
  simp only [Side.flip_eq_closer_iff]
  by_cases hopener : side = .opener
  · simp [hopener]
  · simp [hopener, behind_eq]

/-- **Two tokens of a group see the same group**: the first is no closer, the second no opener, and
what is between them leaves no nested group open. -/
lemma group_append (before : List (Side × α)) {first second : Side × α} {between : List (Side × α)}
    (after : List (Side × α)) (hfirst : first.1 ≠ .closer) (hsecond : second.1 ≠ .opener)
    (hlevel : level 0 between = some 0) :
    group (before ++ first :: between) second after =
      group before first (between ++ second :: after) := by
  obtain ⟨side, a⟩ := first
  obtain ⟨side', b⟩ := second
  simp only [group, if_neg hsecond, if_neg hfirst, ahead_append_cons hsecond hlevel,
    behind_append_cons hfirst hlevel, List.append_assoc, List.cons_append]

/-- What a scan finds is a middle or a closer, with nothing open between it and the scan's start. -/
lemma exists_of_mem_ahead {depth : Nat} {xs : List (Side × α)} {a : α} (h : a ∈ ahead depth xs) :
    ∃ between side after, xs = between ++ (side, a) :: after ∧ level depth between = some 0 ∧
      side ≠ .opener := by
  fun_induction ahead depth xs with
  | case1 => exact nomatch h
  | case2 depth b rest ih =>
      obtain ⟨between, side, after, rfl, hlevel, hside⟩ := ih h
      exact ⟨(.opener, b) :: between, side, after, rfl, hlevel, hside⟩
  | case3 b rest ih =>
      rcases List.mem_cons.mp h with rfl | h
      · exact ⟨[], .middle, rest, rfl, rfl, by simp⟩
      · obtain ⟨between, side, after, rfl, hlevel, hside⟩ := ih h
        exact ⟨(.middle, b) :: between, side, after, rfl, hlevel, hside⟩
  | case4 depth b rest ih =>
      obtain ⟨between, side, after, rfl, hlevel, hside⟩ := ih h
      exact ⟨(.middle, b) :: between, side, after, rfl, hlevel, hside⟩
  | case5 b rest =>
      obtain rfl := List.mem_singleton.mp h
      exact ⟨[], .closer, rest, rfl, rfl, by simp⟩
  | case6 depth b rest ih =>
      obtain ⟨between, side, after, rfl, hlevel, hside⟩ := ih h
      exact ⟨(.closer, b) :: between, side, after, rfl, hlevel, hside⟩

lemma exists_of_mem_behind {xs : List (Side × α)} {a : α} (h : a ∈ behind xs) :
    ∃ before side between, xs = before ++ (side, a) :: between ∧ level 0 between = some 0 ∧
      side ≠ .closer := by
  rw [behind_eq, List.mem_reverse] at h
  obtain ⟨between, side, before, hxs, hlevel, hside⟩ := exists_of_mem_ahead h
  refine ⟨mirror before, side.flip, mirror between, ?_, level_mirror hlevel, ?_⟩
  · rw [← mirror_mirror xs, hxs, mirror_append, mirror_cons, List.append_assoc]
    rfl
  · exact fun hflip => hside (Side.flip_eq_closer_iff.mp hflip)

/-- **The group of a token is that of each of its members.** -/
lemma exists_group_eq_of_mem {before after : List (Side × α)} {cursor : Side × α} {a : α}
    (h : a ∈ group before cursor after) :
    ∃ before' side after', before ++ cursor :: after = before' ++ (side, a) :: after' ∧
      group before' (side, a) after' = group before cursor after := by
  rcases List.mem_append.mp h with hback | hforth
  · by_cases hside : cursor.1 = .opener
    · rw [if_pos hside] at hback
      exact nomatch hback
    · rw [if_neg hside] at hback
      obtain ⟨before', side, between, rfl, hlevel, hfirst⟩ := exists_of_mem_behind hback
      refine ⟨before', side, between ++ cursor :: after, by simp, ?_⟩
      exact (group_append before' after hfirst hside hlevel).symm
  · rcases List.mem_cons.mp hforth with rfl | hforth
    · exact ⟨before, cursor.1, after, rfl, rfl⟩
    · by_cases hside : cursor.1 = .closer
      · rw [if_pos hside] at hforth
        exact nomatch hforth
      · rw [if_neg hside] at hforth
        obtain ⟨between, side, after', rfl, hlevel, hsecond⟩ := exists_of_mem_ahead hforth
        refine ⟨before ++ cursor :: between, side, after', by simp, ?_⟩
        exact group_append before after' hside hsecond hlevel

/-! ## Other labels -/

lemma ahead_map (f : α → β) (depth : Nat) (xs : List (Side × α)) :
    ahead depth (xs.map (Prod.map id f)) = (ahead depth xs).map f := by
  fun_induction ahead depth xs with
  | case1 => rfl
  | case2 depth a rest ih => exact ih
  | case3 a rest ih => exact congrArg (f a :: ·) ih
  | case4 depth a rest ih => exact ih
  | case5 a rest => rfl
  | case6 depth a rest ih => exact ih

lemma behind_map (f : α → β) (xs : List (Side × α)) :
    behind (xs.map (Prod.map id f)) = (behind xs).map f := by
  have hmirror : mirror (xs.map (Prod.map id f)) = (mirror xs).map (Prod.map id f) := by
    simp [mirror, Function.comp_def]
  rw [behind_eq, behind_eq, hmirror, ahead_map, List.map_reverse]

lemma group_map (f : α → β) (before : List (Side × α)) (cursor : Side × α)
    (after : List (Side × α)) :
    group (before.map (Prod.map id f)) (cursor.1, f cursor.2) (after.map (Prod.map id f)) =
      (group before cursor after).map f := by
  simp only [group, behind_map, ahead_map, List.map_append, List.map_cons]
  split <;> split <;> rfl

/-! ## Closed groups -/

/-- After an opener come these tokens, and its group ends in the closer labelled `a`. -/
def Closed (after : List (Side × α)) (a : α) : Prop :=
  ∃ between rest, after = between ++ (.closer, a) :: rest ∧ level 0 between = some 0

/-- A scan meets the closer of its group, or it goes through all tokens. -/
lemma closer_or_level (depth : Nat) (xs : List (Side × α)) :
    (∃ between a rest, xs = between ++ (.closer, a) :: rest ∧ level depth between = some 0) ∨
      ∃ depth', level depth xs = some depth' := by
  fun_induction level depth xs with
  | case1 depth => exact .inr ⟨depth, rfl⟩
  | case2 depth a rest ih =>
      rcases ih with ⟨between, b, later, rfl, hlevel⟩ | hopen
      · exact .inl ⟨(.opener, a) :: between, b, later, rfl, hlevel⟩
      · exact .inr hopen
  | case3 depth a rest ih =>
      rcases ih with ⟨between, b, later, rfl, hlevel⟩ | hopen
      · exact .inl ⟨(.middle, a) :: between, b, later, rfl, hlevel⟩
      · exact .inr hopen
  | case4 a rest => exact .inl ⟨[], a, rest, rfl, rfl⟩
  | case5 depth a rest ih =>
      rcases ih with ⟨between, b, later, rfl, hlevel⟩ | hopen
      · exact .inl ⟨(.closer, a) :: between, b, later, rfl, hlevel⟩
      · exact .inr hopen

/-- A scan that meets no closer of its group finds middles only. -/
lemma middle_mem_of_mem_ahead {depth depth' : Nat} {xs : List (Side × α)}
    (hlevel : level depth xs = some depth') {a : α} (h : a ∈ ahead depth xs) :
    (.middle, a) ∈ xs := by
  obtain ⟨between, side, after, rfl, hbetween, hside⟩ := exists_of_mem_ahead h
  rw [level_append hbetween] at hlevel
  cases side with
  | opener => exact absurd rfl hside
  | middle => simp
  | closer => exact nomatch hlevel

/-- A group that ends in a closer is closed, if no other token has the label of that closer. -/
lemma closed_of_getLast? {before after : List (Side × α)} {a b : α}
    (hlast : (group before (.opener, a) after).getLast? = some b)
    (hlabel : ∀ side, (side, b) ∈ (.opener, a) :: after → side = .closer) : Closed after b := by
  have hgroup : group before (.opener, a) after = a :: ahead 0 after := rfl
  rw [hgroup] at hlast
  rcases closer_or_level 0 after with ⟨between, z, rest, rfl, hlevel⟩ | ⟨depth, hlevel⟩
  · have hahead : ahead 0 (between ++ (.closer, z) :: rest) = ahead 0 between ++ [z] :=
      ahead_append hlevel _
    rw [hahead, ← List.cons_append, List.getLast?_concat] at hlast
    obtain rfl := Option.some.inj hlast
    exact ⟨between, rest, rfl, hlevel⟩
  · rcases List.mem_cons.mp (List.mem_of_getLast? hlast) with rfl | hmem
    · exact nomatch hlabel .opener List.mem_cons_self
    · have hmiddle := middle_mem_of_mem_ahead hlevel hmem
      exact nomatch hlabel .middle (List.mem_cons_of_mem _ hmiddle)

/-- Under more nested groups, a stretch leaves as many more open. -/
lemma level_add {depth depth' : Nat} {xs : List (Side × α)} (h : level depth xs = some depth')
    (more : Nat) : level (depth + more) xs = some (depth' + more) := by
  induction xs generalizing depth with
  | nil =>
      obtain rfl := Option.some.inj h
      rfl
  | cons x xs ih =>
      obtain ⟨side, a⟩ := x
      cases side with
      | opener =>
          rw [level, Nat.add_right_comm]
          exact ih h
      | middle => exact ih h
      | closer =>
          cases depth with
          | zero => exact nomatch h
          | succ depth =>
              rw [Nat.add_right_comm]
              exact ih h

/-- A stretch that does not close its group leaves every group around it open. -/
lemma level_succ_ne_zero {xs : List (Side × α)} {depth : Nat} (h : level 0 xs = some depth)
    (around : Nat) : level (around + 1) xs ≠ some 0 := by
  have hmore := level_add h (around + 1)
  rw [Nat.zero_add] at hmore
  rw [hmore]
  exact fun hzero => nomatch Option.some.inj hzero

lemma exists_level_of_append {depth depth' : Nat} {xs ys : List (Side × α)}
    (h : level depth (xs ++ ys) = some depth') :
    ∃ between, level depth xs = some between ∧ level between ys = some depth' := by
  induction xs generalizing depth with
  | nil => exact ⟨depth, rfl, h⟩
  | cons x xs ih =>
      obtain ⟨side, a⟩ := x
      cases side with
      | opener => exact ih h
      | middle => exact ih h
      | closer =>
          cases depth with
          | zero => exact nomatch h
          | succ depth => exact ih h

/-- Of two elements of a list, the first comes before the second, or is it, or comes after it. -/
lemma append_cons_cases {xs ys xs' ys' : List α} {x x' : α}
    (h : xs ++ x :: ys = xs' ++ x' :: ys') :
    (∃ tail, xs' = xs ++ x :: tail ∧ ys = tail ++ x' :: ys') ∨ (xs = xs' ∧ x = x' ∧ ys = ys') ∨
      ∃ tail, xs = xs' ++ x' :: tail ∧ ys' = tail ++ x :: ys := by
  rcases List.append_eq_append_iff.mp h with ⟨tail, rfl, htail⟩ | ⟨tail, rfl, htail⟩
  · cases tail with
    | nil =>
        obtain ⟨rfl, rfl⟩ := List.cons.inj htail
        exact .inr (.inl ⟨by simp, rfl, rfl⟩)
    | cons y tail =>
        obtain ⟨rfl, rfl⟩ := List.cons.inj htail
        exact .inl ⟨tail, rfl, rfl⟩
  · cases tail with
    | nil =>
        obtain ⟨rfl, rfl⟩ := List.cons.inj htail
        exact .inr (.inl ⟨by simp, rfl, rfl⟩)
    | cons y tail =>
        obtain ⟨rfl, rfl⟩ := List.cons.inj htail
        exact .inr (.inr ⟨tail, rfl, rfl⟩)

/-! ### Labels in order -/

/-- The labels grow from token to token. -/
def Ordered (xs : List (Side × Nat)) : Prop := xs.Pairwise fun x y => x.2 < y.2

lemma Ordered.lt_of_append {xs ys : List (Side × Nat)} (h : Ordered (xs ++ ys))
    {x y : Side × Nat} (hx : x ∈ xs) (hy : y ∈ ys) : x.2 < y.2 :=
  (List.pairwise_append.mp h).2.2 x hx y hy

/-- A closed group lies between its opener and its closer. -/
lemma Closed.bounds {before after : List (Side × Nat)} {i p : Nat}
    (hordered : Ordered ((.opener, i) :: after)) (hclosed : Closed after p) {k : Nat}
    (hk : k ∈ group before (.opener, i) after) : i ≤ k ∧ k ≤ p := by
  obtain ⟨between, rest, rfl, hlevel⟩ := hclosed
  have hlabels : ∀ x ∈ between ++ (.closer, p) :: rest, i < x.2 :=
    (List.pairwise_cons.mp hordered).1
  have hgroup : group before (.opener, i) (between ++ (.closer, p) :: rest) =
      i :: (ahead 0 between ++ [p]) := congrArg (i :: ·) (ahead_append hlevel _)
  have hp : i < p := hlabels (.closer, p) (by simp)
  rw [hgroup] at hk
  rcases List.mem_cons.mp hk with rfl | hk
  · exact ⟨Nat.le_refl _, Nat.le_of_lt hp⟩
  · rcases List.mem_append.mp hk with hmiddle | hlast
    · have hmem := middle_mem_of_mem_ahead hlevel hmiddle
      have hrest : Ordered (between ++ (.closer, p) :: rest) := (List.pairwise_cons.mp hordered).2
      exact ⟨Nat.le_of_lt (hlabels _ (List.mem_append_left _ hmem)),
        Nat.le_of_lt (hrest.lt_of_append hmem List.mem_cons_self)⟩
    · obtain rfl := List.mem_singleton.mp hlast
      exact ⟨Nat.le_of_lt hp, Nat.le_refl _⟩

/-- **A closed group has no member of an earlier group inside it**: what the scan from an earlier
opener finds is before the later opener or after its closer. -/
lemma Closed.outside {before between after : List (Side × Nat)} {i j q : Nat}
    (hordered : Ordered ((.opener, i) :: (between ++ (.opener, j) :: after)))
    (hclosed : Closed after q) {k : Nat}
    (hk : k ∈ group before (.opener, i) (between ++ (.opener, j) :: after)) : k < j ∨ q < k := by
  obtain ⟨inner, rest, rfl, hinner⟩ := hclosed
  obtain ⟨hlabels, hordered⟩ := List.pairwise_cons.mp hordered
  rcases List.mem_cons.mp hk with rfl | hk
  · exact .inl (hlabels (.opener, j) (by simp))
  · obtain ⟨stretch, side, later, hsplit, hlevel, hside⟩ := exists_of_mem_ahead hk
    rcases append_cons_cases hsplit with ⟨tail, rfl, htail⟩ | ⟨-, heq, -⟩ | ⟨tail, rfl, -⟩
    -- the member is past the later opener, in a stretch that takes the level back to zero
    · right
      obtain ⟨depth, -, hfrom⟩ := exists_level_of_append hlevel
      have hdrop : level (depth + 1) tail = some 0 := hfrom
      rcases append_cons_cases htail with ⟨later', rfl, rfl⟩ | ⟨rfl, -, -⟩ | ⟨later', rfl, -⟩
      · have hrest := (List.pairwise_append.mp hordered).2.1
        rw [← List.cons_append] at hrest
        have hqk := (List.pairwise_append.mp hrest).2.1
        exact (List.pairwise_cons.mp hqk).1 (side, k) (by simp)
      · exact absurd hdrop (level_succ_ne_zero hinner depth)
      · obtain ⟨depth', htail, -⟩ := exists_level_of_append hinner
        exact absurd hdrop (level_succ_ne_zero htail depth)
    · exact absurd (congrArg Prod.fst heq).symm hside
    · left
      have hmem : (side, k) ∈ stretch ++ (side, k) :: tail := by simp
      exact Ordered.lt_of_append hordered hmem List.mem_cons_self

end Bracket
end PonyEditor
