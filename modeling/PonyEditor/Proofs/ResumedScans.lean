import Mathlib.Tactic.Lemma
import PonyEditor.Proofs.ByteOffsets
import PonyEditor.Proofs.LexemeWidths
import PonyEditor.Proofs.NextTokens

/-!
# Scans that are taken up again

A scan can be left behind any token.  What it still has to do is then told by the characters behind
that token and the mode there: they are a line of their own (`scan_resumes_behind_any_token`).

`askTimes` asks a scanner for tokens a number of times.  A stepper that is asked goes along the line
by the lexemes it gives (`Stepper.Passes`), and a scanner of bytes goes beside it
(`ByteScanner.Beside`).  Both are said of one step, and a row of steps follows.
-/

namespace PonyEditor

/-! ## Asking a number of times -/

/-- The answers of a state that is asked this many times, each time in the state that the last
answer left, and the state after them.  A state that has no answer stays as it is. -/
def askTimes {σ α : Type} (next? : σ → Option (α × σ)) : Nat → σ → List α × σ
  | 0, s => ([], s)
  | n + 1, s =>
    match next? s with
    | none => askTimes next? n s
    | some (answer, later) => (answer :: (askTimes next? n later).1, (askTimes next? n later).2)

section

variable {σ τ α β : Type} {next? : σ → Option (α × σ)} {s s' : σ}

lemma askTimes_of_none (h : next? s = none) (n : Nat) : askTimes next? n s = ([], s) := by
  induction n with
  | zero => rfl
  | succ n ih => rw [askTimes, h, ih]

lemma askTimes_succ_of_some {answer : α} (h : next? s = some (answer, s')) (n : Nat) :
    askTimes next? (n + 1) s =
      (answer :: (askTimes next? n s').1, (askTimes next? n s').2) := by
  rw [askTimes, h]

/-- **Two states that go beside each other in one step do so in any number of them.** -/
lemma askTimes_beside {next?' : τ → Option (β × τ)} {beside : σ → τ → Prop} {f : α → β}
    (hnone : ∀ s t, beside s t → next? s = none → next?' t = none)
    (hsome : ∀ s t answer s', beside s t → next? s = some (answer, s') →
      ∃ t', next?' t = some (f answer, t') ∧ beside s' t')
    {t : τ} (h : beside s t) (n : Nat) :
    (askTimes next?' n t).1 = (askTimes next? n s).1.map f ∧
      beside (askTimes next? n s).2 (askTimes next?' n t).2 := by
  induction n generalizing s t with
  | zero => exact ⟨rfl, h⟩
  | succ n ih =>
      cases hnext : next? s with
      | none =>
          rw [askTimes_of_none hnext, askTimes_of_none (hnone s t h hnext)]
          exact ⟨rfl, h⟩
      | some step =>
          obtain ⟨answer, s'⟩ := step
          obtain ⟨t', hnext', h'⟩ := hsome s t answer s' h hnext
          obtain ⟨hanswers, hbeside⟩ := ih h'
          rw [askTimes_succ_of_some hnext, askTimes_succ_of_some hnext', hanswers]
          exact ⟨rfl, hbeside⟩

end

/-! ## Steppers -/

namespace Stepper

variable {s s' s'' : Stepper} {l : Lexeme} {given given' : List Lexeme}

/-- From `s` to `s'` there are these lexemes.  The characters between the two are theirs and their
bytes are counted, the scan from `s` on is them and then the scan from `s'` on, and both lead to one
mode. -/
structure Passes (s : Stepper) (given : List Lexeme) (s' : Stepper) : Prop where
  pos : s'.pos = s.pos + Lexeme.totalWidth given
  rest : s.rest = given.flatMap Lexeme.text ++ s'.rest
  lexemes : (s.mode.scan s.rest).1 = given ++ (s'.mode.scan s'.rest).1
  finish : s'.finish = s.finish

lemma Passes.refl (s : Stepper) : s.Passes [] s := ⟨rfl, rfl, rfl, rfl⟩

lemma Passes.trans (h : s.Passes given s') (h' : s'.Passes given' s'') :
    s.Passes (given ++ given') s'' where
  pos := by
    rw [h'.pos, h.pos, Lexeme.totalWidth_append, Nat.add_assoc]
  rest := by
    rw [h.rest, h'.rest, List.flatMap_append, List.append_assoc]
  lexemes := by
    rw [h.lexemes, h'.lexemes, List.append_assoc]
  finish := h'.finish.trans h.finish

lemma next?_eq_none_iff : s.next? = none ↔ s.rest = [] := by
  cases hrest : s.rest with
  | nil => simp [next?, hrest]
  | cons c cs => simp [next?, hrest]

/-- **One step passes one lexeme.** -/
lemma Passes.of_next? (h : s.next? = some (l, s')) : s.Passes [l] s' := by
  have hfinish := finish_of_next? h
  obtain ⟨pos, rest, mode⟩ := s
  cases rest with
  | nil => cases h
  | cons c cs =>
      have htakes := mode.takes_read c cs
      have hsplit : c :: cs.take (mode.read c cs).more ++ cs.drop (mode.read c cs).more =
          c :: cs := by
        rw [List.cons_append, List.take_append_drop]
      have hnext := htakes.next pos
      have hscan := htakes.scan
      rw [hsplit] at hnext hscan
      obtain ⟨rfl, rfl⟩ := Prod.mk.inj (Option.some.inj (hnext.symm.trans h))
      refine ⟨rfl, ?_, congrArg Prod.fst hscan, hfinish⟩
      simp only [List.flatMap_cons, List.flatMap_nil, List.append_nil, hsplit]

/-- Any number of steps passes the lexemes that they give. -/
lemma passes_askTimes (s : Stepper) (n : Nat) :
    s.Passes (askTimes next? n s).1 (askTimes next? n s).2 := by
  induction n generalizing s with
  | zero => exact Passes.refl s
  | succ n ih =>
      cases hnext : s.next? with
      | none =>
          rw [askTimes_of_none hnext]
          exact Passes.refl s
      | some step =>
          obtain ⟨l, s'⟩ := step
          rw [askTimes_succ_of_some hnext]
          exact (Passes.of_next? hnext).trans (ih s')

/-- **A stepper gives the lexemes of what it has not read**, as many as it is asked for. -/
lemma askTimes_fst (s : Stepper) (n : Nat) :
    (askTimes next? n s).1 = (s.mode.scan s.rest).1.take n := by
  induction n generalizing s with
  | zero => rfl
  | succ n ih =>
      cases hnext : s.next? with
      | none =>
          rw [askTimes_of_none hnext, next?_eq_none_iff.mp hnext, Mode.scan_nil, List.take_nil]
      | some step =>
          obtain ⟨l, s'⟩ := step
          rw [askTimes_succ_of_some hnext, ih s', (Passes.of_next? hnext).lexemes]
          rfl

/-- The steps of a stepper are the answers it has. -/
lemma map_fst_steps (s : Stepper) (n : Nat) :
    (s.steps n).map Prod.fst = (askTimes next? n s).1 := by
  induction n generalizing s with
  | zero => rfl
  | succ n ih =>
      cases hnext : s.next? with
      | none =>
          rw [askTimes_of_none hnext, steps, hnext]
          rfl
      | some step =>
          obtain ⟨l, s'⟩ := step
          rw [askTimes_succ_of_some hnext, steps, hnext, ← ih s']
          rfl

end Stepper

/-! ## Scanners of bytes -/

namespace ByteScanner

variable {line : String} {s s' : Stepper} {b : ByteScanner} {l : Lexeme}

/-- On this line, the scanner of bytes stands where the stepper does, in the same mode. -/
structure Beside (line : String) (s : Stepper) (b : ByteScanner) : Prop where
  reader : b.reader.At line s.rest
  mode : b.mode = s.mode

lemma beside_start (line : String) (mode : Mode) :
    Beside line (.start line mode) (.start line mode) :=
  ⟨ByteReader.at_start line, rfl⟩

/-- What a stepper has not read can be a line of its own, and a scanner of bytes that is started
there stands where the stepper does. -/
lemma beside_fresh (s : Stepper) :
    Beside (String.ofList s.rest) s (.start (String.ofList s.rest) s.mode) := by
  refine ⟨?_, rfl⟩
  have hat := ByteReader.at_start (String.ofList s.rest)
  rwa [String.toList_ofList] at hat

lemma Beside.next?_of_none (h : Beside line s b) (hnext : s.next? = none) : b.next? = none := by
  have hat := h.reader
  rw [Stepper.next?_eq_none_iff.mp hnext] at hat
  rw [next?, if_pos (hat.atEnd_iff.mpr rfl)]

/-- **One step of the scanner of bytes is one step of the stepper.** -/
lemma Beside.next?_of_some (h : Beside line s b) (hnext : s.next? = some (l, s')) :
    ∃ b', b.next? = some ((l.kind, l.width), b') ∧ Beside line s' b' := by
  obtain ⟨pos, rest, mode⟩ := s
  obtain ⟨reader, mode'⟩ := b
  obtain ⟨hat : reader.At line rest, hmode : mode' = mode⟩ := h
  subst hmode
  cases rest with
  | nil => cases hnext
  | cons c cs =>
      obtain ⟨rfl, rfl⟩ := Prod.mk.inj (Option.some.inj hnext)
      obtain ⟨stop, hstop, hbytes⟩ := next?_of_at hat mode'
      exact ⟨_, hbytes, hstop, rfl⟩

lemma Beside.after_askTimes (h : Beside line s b) (n : Nat) :
    (askTimes next? n b).1 = (askTimes Stepper.next? n s).1.map (fun l => (l.kind, l.width)) ∧
      Beside line (askTimes Stepper.next? n s).2 (askTimes next? n b).2 :=
  askTimes_beside (fun _ _ h => h.next?_of_none) (fun _ _ _ _ h => h.next?_of_some) h n

/-- A scanner of bytes beside a stepper yields the lexemes of what the stepper has not read, and
nothing else. -/
lemma Beside.run_iff (h : Beside line s b) {tokens : List (Kind × Nat)} {exit : Mode} :
    Run b tokens exit ↔
      tokens = (s.mode.scan s.rest).1.map (fun l => (l.kind, l.width)) ∧ exit = s.finish := by
  have hrun : Run b ((s.mode.scan s.rest).1.map fun l => (l.kind, l.width)) s.finish := by
    rw [Stepper.finish, ← h.mode]
    exact run_of_at h.reader b.mode
  constructor
  · intro hyields
    exact hyields.unique hrun
  · rintro ⟨rfl, rfl⟩
    exact hrun

end ByteScanner

/-! ## Taking a scan up again -/

namespace Stepper

/-- Behind the lexemes given from the start of a line, the rest of it is what a stepper has not
read, and can be cut out of the line at its position. -/
lemma Passes.slice? {line : String} {entry : Mode} {given : List Lexeme} {s : Stepper}
    (h : (start line entry).Passes given s) :
    Text.slice? line s.pos line.utf8ByteSize = some (String.ofList s.rest) := by
  have hline : line.toList = given.flatMap Lexeme.text ++ s.rest ++ [] := by
    rw [List.append_nil]
    exact h.rest
  have hpos : s.pos = Text.width (given.flatMap Lexeme.text) := by
    rw [← Lexeme.totalWidth_eq, h.pos]
    exact Nat.zero_add _
  have hsize : line.utf8ByteSize = s.pos + Text.width s.rest := by
    rw [Text.utf8ByteSize_eq, hline, List.append_nil, Text.width_append, hpos]
  rw [hsize, hpos]
  exact Text.slice?_append hline

end Stepper

/-- A scanner of bytes beside a stepper that started with it has counted the same bytes. -/
lemma ByteScanner.Beside.pos_eq {line : String} {entry : Mode} {given : List Lexeme} {s : Stepper}
    {b : ByteScanner} (h : Beside line s b) (hpasses : (Stepper.start line entry).Passes given s) :
    b.reader.pos = s.pos := by
  have hbytes := h.reader.pos_add
  have hline := congrArg Text.width hpasses.rest
  rw [Text.width_append, ← Lexeme.totalWidth_eq] at hline
  have hpos : s.pos = 0 + Lexeme.totalWidth given := hpasses.pos
  have hstart : Text.width line.toList = Lexeme.totalWidth given + Text.width s.rest := hline
  omega

namespace Mode

/-- **A scan can be taken up again behind any token.**  A stepper and a scanner of bytes are started
on a line and asked a number of times, which may be more than there are tokens.  They have given the
first lexemes of the line, as many as were asked for, and stand behind them: at the sum of their
widths, and both in one mode.  There the line can be cut.  What either gives from there on is what
the rest of the line gives as a line of its own that begins in that mode, and those are the other
lexemes of the line.  The mode at the end is one and the same, whether the scan is finished from
there, or the whole line or the rest of it is scanned, for its tokens or for the mode alone. -/
theorem scan_resumes_behind_any_token (line : String) (entry : Mode) (k : Nat) :
    let given := (askTimes Stepper.next? k (.start line entry)).1
    let s := (askTimes Stepper.next? k (.start line entry)).2
    let tokens := (askTimes ByteScanner.next? k (.start line entry)).1
    let b := (askTimes ByteScanner.next? k (.start line entry)).2
    (given = (entry.lexemes line).take k ∧ s.pos = Lexeme.totalWidth given) ∧
    (tokens = given.map (fun l => (l.kind, l.width)) ∧ b.reader.pos = s.pos ∧ b.mode = s.mode) ∧
    ∃ rest, Text.slice? line s.pos line.utf8ByteSize = some rest ∧
      (∀ n, (s.steps n).map Prod.fst = (s.mode.lexemes rest).take n) ∧
      s.mode.lexemes rest = (entry.lexemes line).drop k ∧
      (∀ later exit, ByteScanner.Run b later exit ↔
        ByteScanner.Run (.start rest s.mode) later exit) ∧
      ByteScanner.Run b ((s.mode.lexemes rest).map fun l => (l.kind, l.width)) s.finish ∧
      s.finish = entry.exit line ∧ (entry.scan line.toList).2 = entry.exit line ∧
      s.mode.exit rest = entry.exit line := by
  intro given s tokens b
  have hgiven : given = (entry.lexemes line).take k := Stepper.askTimes_fst _ k
  have hpasses : (Stepper.start line entry).Passes given s := Stepper.passes_askTimes _ k
  obtain ⟨htokens, hbeside⟩ := (ByteScanner.beside_start line entry).after_askTimes k
  have hrest : (String.ofList s.rest).toList = s.rest := String.toList_ofList
  have hlexemes : s.mode.lexemes (String.ofList s.rest) = (s.mode.scan s.rest).1 := by
    rw [lexemes, hrest]
  have hexit : s.mode.exit (String.ofList s.rest) = s.finish := by
    rw [exit, hrest, Stepper.finish]
  refine ⟨⟨hgiven, hpasses.pos.trans (Nat.zero_add _)⟩,
    ⟨htokens, hbeside.pos_eq hpasses, hbeside.mode⟩, String.ofList s.rest, hpasses.slice?, ?_, ?_,
    ?_, ?_, hpasses.finish, scan_snd _ _, hexit.trans hpasses.finish⟩
  · intro n
    rw [Stepper.map_fst_steps, Stepper.askTimes_fst, hlexemes]
  · have hall : (entry.lexemes line).take k ++ (s.mode.scan s.rest).1 =
        (entry.lexemes line).take k ++ (entry.lexemes line).drop k := by
      rw [← hgiven, ← hpasses.lexemes, hgiven, List.take_append_drop]
      rfl
    rw [hlexemes, List.append_cancel_left hall]
  · intro later exit
    exact hbeside.run_iff.trans (ByteScanner.beside_fresh s).run_iff.symm
  · rw [hlexemes]
    exact hbeside.run_iff.mpr ⟨rfl, rfl⟩

end Mode
end PonyEditor
