import Imx.Readline.Defs

/-!
# The history as a stack

The lines that were entered lie in a ring of `HIST_MAX` rows, of which the one that is written next
is never shown. `Stack` is what the ring is for: the most recent lines and how far a user went back
in them. `Hist.Is` connects the two, for a ring that is still being filled and for one that wraps.
-/

namespace Imx.Readline

/-- The most recent lines, the last one first, of which a user went `back` some. -/
structure Stack where
  recent : List CStr
  back : Nat
  back_le : back ≤ recent.length

namespace Stack

def empty : Stack := ⟨[], 0, Nat.zero_le _⟩

/-- A line is entered; no more than `keep` lines are retained. -/
def push (keep : Nat) (s : Stack) (line : CStr) : Stack :=
  ⟨(line :: s.recent).take keep, 0, Nat.zero_le _⟩

/-- Back to the empty line behind the most recent one. -/
def rest (s : Stack) : Stack := ⟨s.recent, 0, Nat.zero_le _⟩

/-- One line further back, if there is one. -/
def prev (s : Stack) : Stack × Option CStr :=
  if more : s.back < s.recent.length then
    (⟨s.recent, s.back + 1, more⟩, some (s.recent.get ⟨s.back, more⟩))
  else
    (s, none)

/-- What the last step back is undone to. -/
def next (s : Stack) : Stack × Option CStr :=
  match s with
  | ⟨_, 0, _⟩ => (s, none)
  | ⟨recent, 1, _⟩ => (⟨recent, 0, Nat.zero_le _⟩, some [])
  | ⟨recent, back + 2, le⟩ =>
    (⟨recent, back + 1, Nat.le_of_succ_le le⟩, some (recent.get ⟨back, Nat.lt_of_succ_lt le⟩))

end Stack

/-- What happens to a history: `add` and `skip` are the end of a line that goes to it and of one
that does not, `prev` and `next` the keys. -/
inductive Visit where
  | add (line : CStr)
  | skip
  | prev
  | next

/-- The code, with what it returns. -/
def Visit.run (h : Hist) : Visit → Hist × Option CStr
  | add line => ({ h.add line with cur := some (h.add line).addIdx }, none)
  | skip => ({ h with cur := some h.addIdx }, none)
  | prev => h.prev
  | next => h.next

/-- The stack, which retains all rows but one. -/
def Visit.stack (s : Stack) : Visit → Stack × Option CStr
  | add line => (s.push (histMax - 1) line, none)
  | skip => (s.rest, none)
  | prev => s.prev
  | next => s.next

/-- The history is the stack, where `n` lines were entered. -/
structure Hist.Is (h : Hist) (n : Nat) (s : Stack) : Prop where
  addIdx : h.addIdx = n % histMax
  max : h.max = min n (histMax - 1)
  retained : s.recent.length = min n (histMax - 1)
  rows : ∀ j (lt : j < s.recent.length), h.lines ((n - (j + 1)) % histMax) = s.recent.get ⟨j, lt⟩
  cur : h.cur = some ((n - s.back) % histMax) ∨ h.cur = none ∧ n = 0

variable {h : Hist} {n : Nat} {s : Stack} {line : CStr}

lemma Hist.Is.init : Hist.init.Is 0 .empty where
  addIdx := rfl
  max := rfl
  retained := rfl
  rows _ lt := absurd lt (Nat.not_lt_zero _)
  cur := .inr ⟨rfl, rfl⟩

/-- A line is written to the row that is next, and the row behind it is the next one. -/
lemma Hist.Is.add (is : h.Is n s) :
    Hist.Is { h.add line with cur := some (h.add line).addIdx } (n + 1) (s.push (histMax - 1) line) := by
  have addIdx := is.addIdx
  have max := is.max
  have retained := is.retained
  have at_ : (h.add line).addIdx = (n + 1) % histMax := by
    show (if h.addIdx + 1 ≥ histMax then 0 else h.addIdx + 1) = _
    rw [addIdx, histMax]
    split_ifs <;> omega
  refine ⟨at_, ?_, ?_, ?_, .inl (congrArg some at_)⟩
  · show (if (h.add line).addIdx > h.max then (h.add line).addIdx else h.max) = _
    rw [at_, max, histMax]
    split_ifs <;> omega
  · simp only [Stack.push, List.length_take, List.length_cons, retained, histMax]
    omega
  · intro j lt
    have lt' : j < min (histMax - 1) (s.recent.length + 1) := by
      rw [← List.length_cons (a := line), ← List.length_take]
      exact lt
    have inside : j < (line :: s.recent).length := by
      rw [List.length_cons]
      omega
    have take : (s.push (histMax - 1) line).recent.get ⟨j, lt⟩ =
        (line :: s.recent).get ⟨j, inside⟩ := List.getElem_take
    rw [take]
    show Function.update h.lines h.addIdx line _ = _
    cases j with
    | zero =>
      rw [Nat.zero_add, Nat.add_sub_cancel, ← addIdx, Function.update_self]
      rfl
    | succ j =>
      simp only [histMax] at addIdx lt' retained
      have other : (n + 1 - (j + 1 + 1)) % histMax ≠ h.addIdx := by
        simp only [histMax]
        omega
      rw [Function.update_of_ne other, Nat.add_sub_add_right]
      exact is.rows j (by omega)

lemma Hist.Is.rest (is : h.Is n s) : Hist.Is { h with cur := some h.addIdx } n s.rest where
  addIdx := is.addIdx
  max := is.max
  retained := is.retained
  rows := is.rows
  cur := .inl (congrArg some is.addIdx)

/-- The row before the current one is the next one to be written exactly where no line is left. -/
lemma Hist.Is.prev (is : h.Is n s) : h.prev.2 = s.prev.2 ∧ h.prev.1.Is n s.prev.1 := by
  have addIdx := is.addIdx
  have max := is.max
  have retained := is.retained
  have back_le := s.back_le
  obtain cur | ⟨cur, none⟩ := is.cur
  case inr =>
    have no : ¬ s.back < s.recent.length := by
      rw [retained, none]
      exact Nat.not_lt_zero _
    rw [Hist.prev, cur, Stack.prev, dif_neg no]
    exact ⟨rfl, is⟩
  rw [Hist.prev, cur, Stack.prev]
  simp only [histMax] at addIdx max retained
  by_cases more : s.back < s.recent.length
  case pos =>
    have before : (if (n - s.back) % histMax = 0 then h.max else (n - s.back) % histMax - 1) =
        (n - (s.back + 1)) % histMax := by
      by_cases first : (n - s.back) % histMax = 0
      case pos =>
        rw [if_pos first]
        simp only [histMax] at first ⊢
        omega
      case neg =>
        rw [if_neg first]
        simp only [histMax] at first ⊢
        omega
    have other : (n - (s.back + 1)) % histMax ≠ h.addIdx := by
      simp only [histMax]
      omega
    simp only [before]
    rw [if_neg other, dif_pos more]
    exact ⟨congrArg some (is.rows s.back more), is.addIdx, is.max, is.retained, is.rows, .inl rfl⟩
  case neg =>
    have last : (if (n - s.back) % histMax = 0 then h.max else (n - s.back) % histMax - 1) =
        h.addIdx := by
      by_cases first : (n - s.back) % histMax = 0
      case pos =>
        rw [if_pos first]
        simp only [histMax] at first
        omega
      case neg =>
        rw [if_neg first]
        simp only [histMax] at first ⊢
        omega
    simp only [last]
    rw [if_pos True.intro, dif_neg more]
    exact ⟨rfl, is⟩

/-- The row behind the current one is the next one to be written where the most recent line is
undone. -/
lemma Hist.Is.next (is : h.Is n s) : h.next.2 = s.next.2 ∧ h.next.1.Is n s.next.1 := by
  have addIdx := is.addIdx
  have max := is.max
  have retained := is.retained
  obtain ⟨recent, back, back_le⟩ := s
  obtain cur | ⟨cur, none⟩ := is.cur
  case inr =>
    obtain rfl : back = 0 := by
      subst none
      exact Nat.le_zero.1 (Nat.le_trans back_le (Nat.le_of_eq retained))
    rw [Hist.next, cur, Stack.next]
    exact ⟨rfl, is⟩
  have retained : recent.length = min n (histMax - 1) := retained
  have cur : h.cur = some ((n - back) % histMax) := cur
  have behind (pos : 0 < back) :
      (n - back) % histMax ≠ h.addIdx ∧
        (if (n - back) % histMax + 1 > h.max then 0 else (n - back) % histMax + 1) =
          (n - (back - 1)) % histMax := by
    simp only [histMax] at addIdx max retained
    refine ⟨?_, ?_⟩
    · simp only [histMax]
      omega
    · by_cases last : (n - back) % histMax + 1 > h.max
      case pos =>
        rw [if_pos last]
        simp only [histMax] at last ⊢
        omega
      case neg =>
        rw [if_neg last]
        simp only [histMax] at last ⊢
        omega
  match back with
  | 0 =>
    have first : (n - 0) % histMax = h.addIdx := addIdx.symm
    rw [Hist.next, cur, Stack.next]
    simp only [first, if_true]
    exact ⟨trivial, is⟩
  | 1 =>
    obtain ⟨ne, after⟩ := behind Nat.one_pos
    rw [Hist.next, cur, Stack.next]
    simp only [after, if_neg ne]
    have first : (n - (1 - 1)) % histMax = h.addIdx := addIdx.symm
    rw [if_pos first]
    exact ⟨rfl, is.addIdx, is.max, is.retained, is.rows, .inl rfl⟩
  | back + 2 =>
    obtain ⟨ne, after⟩ := behind (Nat.succ_pos _)
    have other : (n - (back + 2 - 1)) % histMax ≠ h.addIdx := by
      simp only [histMax] at addIdx max retained ⊢
      omega
    rw [Hist.next, cur, Stack.next]
    simp only [after, if_neg ne]
    rw [if_neg other]
    exact ⟨congrArg some (is.rows back (Nat.lt_of_succ_lt back_le)), is.addIdx, is.max, is.retained,
      is.rows, .inl rfl⟩

/-- The state a run ends in. -/
def final {S : Type*} (step : S → Visit → S × Option CStr) (s : S) (vs : List Visit) : S :=
  vs.foldl (fun s v => (step s v).1) s

/-- What a run returns, by what each visit does to a state. -/
def returns {S : Type*} (step : S → Visit → S × Option CStr) : S → List Visit → List (Option CStr)
  | _, [] => []
  | s, v :: vs => (step s v).2 :: returns step (step s v).1 vs

lemma Hist.Is.visit {v : Visit} (is : h.Is n s) :
    (v.run h).2 = (v.stack s).2 ∧ ∃ n', (v.run h).1.Is n' (v.stack s).1 := by
  cases v with
  | add line => exact ⟨rfl, n + 1, is.add⟩
  | skip => exact ⟨rfl, n, is.rest⟩
  | prev => exact ⟨is.prev.1, n, is.prev.2⟩
  | next => exact ⟨is.next.1, n, is.next.2⟩

lemma Hist.Is.returns {vs : List Visit} (is : h.Is n s) :
    returns Visit.run h vs = returns Visit.stack s vs := by
  induction vs generalizing h n s with
  | nil => rfl
  | cons v vs ih =>
    obtain ⟨same, n', is'⟩ := is.visit (v := v)
    rw [Readline.returns, Readline.returns, same, ih is']

lemma Hist.Is.final (is : h.Is n s) (vs : List Visit) :
    ∃ n', (final Visit.run h vs).Is n' (final Visit.stack s vs) := by
  induction vs generalizing h n s with
  | nil => exact ⟨n, is⟩
  | cons v vs ih =>
    obtain ⟨-, n', is'⟩ := is.visit (v := v)
    exact ih is'

/-! ## Going back -/

/-- All steps back return the lines that are left, and one more returns nothing. -/
lemma Stack.returns_prev {k : Nat} (eq : s.back + k = s.recent.length) :
    returns Visit.stack s (List.replicate k Visit.prev ++ [Visit.prev]) =
      (s.recent.drop s.back).map some ++ [none] := by
  induction k generalizing s with
  | zero =>
    have last : Visit.stack s .prev = (s, none) := dif_neg (by omega)
    rw [List.drop_eq_nil_of_le (by omega), List.replicate_zero, List.nil_append, returns,
      last, returns, List.map_nil, List.nil_append]
  | succ k ih =>
    have more : s.back < s.recent.length := by omega
    have step : Visit.stack s .prev =
        (⟨s.recent, s.back + 1, more⟩, some (s.recent.get ⟨s.back, more⟩)) := dif_pos more
    rw [List.replicate_succ, List.cons_append, returns, step,
      ih (show s.back + 1 + k = s.recent.length by omega), List.drop_eq_getElem_cons more,
      List.map_cons, List.cons_append]
    rfl

/-- Forward undoes a step back. -/
lemma Stack.next_prev (more : s.back < s.recent.length) : s.prev.1.next.1 = s := by
  obtain ⟨recent, back, le⟩ := s
  rw [Stack.prev, dif_pos more]
  cases back with
  | zero => rfl
  | succ back => rfl

/-- A key only moves the cursor. -/
lemma Hist.prev_eq (h : Hist) : h.prev.1 = { h with cur := h.prev.1.cur } := by
  rw [Hist.prev]
  split
  case h_1 => rfl
  case h_2 old _ =>
    generalize (if old = 0 then h.max else old - 1) = cur
    dsimp only
    split
    · rfl
    · rfl

lemma Hist.next_eq (h : Hist) : h.next.1 = { h with cur := h.next.1.cur } := by
  rw [Hist.next]
  split
  case h_1 => rfl
  case h_2 =>
    dsimp only
    split
    · rfl
    · rfl

/-- Forward undoes a step back in the code as well. -/
lemma Hist.Is.next_prev (is : h.Is n s) : h.prev.2 = none ∨ h.prev.1.next.1 = h := by
  by_cases more : s.back < s.recent.length
  case neg =>
    refine .inl (is.prev.1.trans ?_)
    rw [Stack.prev, dif_neg more]
  case pos =>
    have back := is.prev.2.next.2
    rw [Stack.next_prev more] at back
    have length := is.retained
    have same : h.prev.1.next.1.cur = h.cur := by
      obtain cur | ⟨-, none⟩ := is.cur
      · obtain cur' | ⟨-, none⟩ := back.cur
        · rw [cur, cur']
        · omega
      · omega
    refine .inr ?_
    rw [Hist.next_eq, same, Hist.prev_eq]

lemma returns_append {S : Type*} {step : S → Visit → S × Option CStr} {s : S} {vs ws : List Visit} :
    returns step s (vs ++ ws) = returns step s vs ++ returns step (final step s vs) ws := by
  induction vs generalizing s with
  | nil => rfl
  | cons v vs ih =>
    rw [List.cons_append, returns, ih, returns, List.cons_append]
    rfl

/-- The lines that are retained of the ones entered. -/
lemma Stack.entered (lines : List CStr) (start : s.back = 0) (fits : s.recent.length ≤ histMax - 1) :
    returns Visit.stack s (lines.map .add) = List.replicate lines.length none ∧
      (final Visit.stack s (lines.map .add)).recent =
        (lines.reverse ++ s.recent).take (histMax - 1) ∧
      (final Visit.stack s (lines.map .add)).back = 0 := by
  induction lines generalizing s with
  | nil => exact ⟨rfl, (List.take_of_length_le fits).symm, start⟩
  | cons line lines ih =>
    have fits' : (s.push (histMax - 1) line).recent.length ≤ histMax - 1 :=
      List.length_take_le _ _
    obtain ⟨outs, recent, back⟩ := ih (s := s.push (histMax - 1) line) rfl fits'
    refine ⟨?_, ?_, back⟩
    · rw [List.map_cons, returns, Visit.stack, outs, List.length_cons, List.replicate_succ]
    · rw [List.map_cons]
      refine recent.trans ?_
      show (lines.reverse ++ (line :: s.recent).take (histMax - 1)).take (histMax - 1) = _
      rw [List.reverse_cons, List.append_assoc, List.singleton_append, List.take_append,
        List.take_append, List.take_take, Nat.min_eq_left (Nat.sub_le _ _)]

/-- The history is a stack with a cursor: a run returns what the stack does, forward undoes a step
back, and all steps back from the end of a line return the most recent lines, the last one first,
and then nothing. -/
theorem history_stack (vs : List Visit) (lines : List CStr) :
    returns Visit.run .init vs = returns Visit.stack .empty vs ∧
      ((final Visit.run .init vs).prev.2 = none ∨
        (final Visit.run .init vs).prev.1.next.1 = final Visit.run .init vs) ∧
      returns Visit.run .init
          (lines.map Visit.add ++ List.replicate (min lines.length (histMax - 1)) Visit.prev ++
            [Visit.prev]) =
        List.replicate lines.length none ++ (lines.reverse.take (histMax - 1)).map some ++ [none] := by
  obtain ⟨n, is⟩ := Hist.Is.init.final vs
  refine ⟨Hist.Is.init.returns, is.next_prev, ?_⟩
  obtain ⟨outs, recent, back⟩ := @Stack.entered .empty lines rfl (Nat.zero_le _)
  have recent : (final Visit.stack .empty (lines.map .add)).recent =
      lines.reverse.take (histMax - 1) := by
    rw [recent]
    exact congrArg _ (List.append_nil _)
  have length : min lines.length (histMax - 1) =
      (final Visit.stack .empty (lines.map .add)).recent.length := by
    rw [recent, List.length_take, List.length_reverse, Nat.min_comm]
  rw [Hist.Is.init.returns, List.append_assoc, returns_append, outs, length,
    Stack.returns_prev (by rw [back, Nat.zero_add]), back, List.drop_zero, recent,
    List.append_assoc]

end Imx.Readline
