import Imx.Base.Run
import Imx.Readline.Defs

/-!
# The line editor as an editor

An abstract editor holds the text before the cursor and the text from the cursor on. `decode` turns
keys into its commands. `cread_line` refines it: after every key the buffer, split at the cursor,
holds the two texts. What the code stores stays inside of a buffer of `CONFIG_SYS_CBSIZE` bytes
exactly as long as no line of that many bytes is entered or recalled from the history, since the NUL
behind such a line has no room (`readline_iff`).
-/

namespace Imx.Readline
open Imx.Base

/-! ## The abstract editor -/

/-- A line with a cursor between its two parts. -/
structure Editor where
  before : CStr
  after : CStr
  overwrite : Bool
  hist : Hist

/-- What the editor can be told to do. -/
inductive Cmd where
  | put (c : UInt8)
  | left
  | right
  | home
  | toEnd
  | eraseLeft
  | eraseUnder
  | killEnd
  | killLine
  | toggle
  | prev
  | next
deriving DecidableEq, Repr

/-- Replace the text by a line of the history. -/
def Editor.recall (ed : Editor) (r : Hist × Option CStr) : Editor :=
  match r.2 with
  | none => { ed with hist := r.1 }
  | some line => { ed with before := line, after := [], hist := r.1 }

/-- A command on a line of at most `cap` bytes. -/
def Editor.exec (cap : Nat) (ed : Editor) : Cmd → Editor
  | .put c =>
    if ed.overwrite ∧ ed.after ≠ [] then
      { ed with before := ed.before ++ [c], after := ed.after.tail }
    else if ed.before.length + ed.after.length < cap then { ed with before := ed.before ++ [c] }
    else ed
  | .left => { ed with before := ed.before.dropLast, after := ed.before.getLast?.toList ++ ed.after }
  | .right => { ed with before := ed.before ++ ed.after.take 1, after := ed.after.tail }
  | .home => { ed with before := [], after := ed.before ++ ed.after }
  | .toEnd => { ed with before := ed.before ++ ed.after, after := [] }
  | .eraseLeft => { ed with before := ed.before.dropLast }
  | .eraseUnder => { ed with after := ed.after.tail }
  | .killEnd => { ed with after := [] }
  | .killLine => { ed with before := [], after := [] }
  | .toggle => { ed with overwrite := !ed.overwrite }
  | .prev => ed.recall ed.hist.prev
  | .next => ed.recall ed.hist.next

/-- The line of the history that a command recalls. -/
def Editor.recalled (ed : Editor) : Cmd → Option CStr
  | .prev => ed.hist.prev.2
  | .next => ed.hist.next.2
  | _ => none

/-- The command of a byte by itself. -/
def command (k : UInt8) : Cmd :=
  if k = 1 then .home
  else if k = 2 then .left
  else if k = 4 then .eraseUnder
  else if k = 5 then .toEnd
  else if k = 6 then .right
  else if k = 8 ∨ k = 127 ∨ k = 255 then .eraseLeft
  else if k = 11 then .killEnd
  else if k = 14 then .next
  else if k = 15 then .toggle
  else if k = 16 then .prev
  else if k = 21 ∨ k = 24 then .killLine
  else .put k

/-- The command of an escape sequence by its last byte. -/
def arrow (k : UInt8) : Option Cmd :=
  if k = 65 then some .prev
  else if k = 66 then some .next
  else if k = 67 then some .right
  else if k = 68 then some .left
  else if k = 72 then some .home
  else none

/-- The commands of a key after the bytes of an unfinished escape sequence, and what is pending then.
A sequence that is not known is put into the line, of an escape with another byte the escape. -/
def decode (pending : List UInt8) (k : UInt8) : List UInt8 × List Cmd :=
  match pending with
  | [] => if k = 27 then ([27], []) else ([], [command k])
  | [esc] => if k = 91 then ([esc, 91], []) else ([], [.put esc])
  | pending =>
    match arrow k with
    | some cmd => ([], [cmd])
    | none => ([], (pending ++ [k]).map .put)

/-- An editor with the bytes of an unfinished escape sequence. -/
structure Session where
  ed : Editor
  pending : List UInt8

/-- The editor after a key. -/
def Session.key (cap : Nat) (x : Session) (k : UInt8) : Session where
  ed := (decode x.pending k).2.foldl (Editor.exec cap) x.ed
  pending := (decode x.pending k).1

/-- The line of the history that a key recalls. -/
def Session.recalled (x : Session) (k : UInt8) : Option CStr :=
  match (decode x.pending k).2 with
  | [cmd] => x.ed.recalled cmd
  | _ => none

/-! ## Refinement -/

/-- The lines of the history have at most `len` bytes. -/
def Hist.Fits (len : Nat) (h : Hist) : Prop := ∀ i, (h.lines i).length ≤ len

/-- The buffer holds the line of the editor. -/
structure Refines (len : Nat) (s : Line) (ed : Editor) : Prop where
  num : s.num = ed.before.length
  eol : s.eolNum = ed.before.length + ed.after.length
  text : s.buf.read 0 s.eolNum = ed.before ++ ed.after
  insert : s.insert = !ed.overwrite
  hist : s.hist = ed.hist
  cap : s.eolNum ≤ len
  fits : ed.hist.Fits len

variable {len : Nat} {s : Line} {ed : Editor} {c k : UInt8}

section Parts

variable (h : Refines len s ed)
include h

/-- The text before the cursor. -/
lemma Refines.before : s.buf.read 0 s.num = ed.before := by
  have text := h.text
  rw [h.eol, ← h.num, Mem.read_add] at text
  exact (List.append_inj text (by rw [Mem.length_read, h.num])).1

/-- The text from the cursor on. -/
lemma Refines.after : s.buf.read s.num ed.after.length = ed.after := by
  have text := h.text
  rw [h.eol, ← h.num, Mem.read_add, Nat.zero_add] at text
  exact (List.append_inj text (by rw [Mem.length_read, h.num])).2

end Parts

/-- Reading from the start over some bytes that were written. -/
lemma read_written {m : Mem} {a n : Nat} {bs : List UInt8} :
    (m.write a bs).read 0 (a + bs.length + n) = m.read 0 a ++ bs ++ m.read (a + bs.length) n := by
  rw [Mem.read_add, Mem.read_add, Mem.read_write_disjoint (.inl (by omega)), Nat.zero_add,
    Nat.zero_add, Mem.read_write_self rfl, Mem.read_write_disjoint (.inr (Nat.le_refl _))]

/-- A step from `s` to `s'` that leaves the escape sequence: `s'` refines `ed'`, and what it stored
is inside of the buffer unless it copied a line of the history that is too long. -/
structure Steps (len : Nat) (s s' : Line) (ed' : Editor) (recalled : Option CStr) : Prop where
  refines : Refines len s' ed'
  esc : s'.escSave = s.escSave
  top : s'.top ≤ len ↔ s.top ≤ len ∧ ∀ l ∈ recalled, l.length < len

/-- A step that copied nothing from the history. -/
lemma Refines.steps {s' : Line} {ed' : Editor} (refines : Refines len s' ed')
    (esc : s'.escSave = s.escSave) (top : s'.top ≤ len ↔ s.top ≤ len) :
    Steps len s s' ed' none :=
  ⟨refines, esc, by rw [top]; simp⟩

section Store

variable {i : Nat} {bs : List UInt8}

@[simp] lemma store_num : (s.store i bs).num = s.num := rfl
@[simp] lemma store_eolNum : (s.store i bs).eolNum = s.eolNum := rfl
@[simp] lemma store_insert : (s.store i bs).insert = s.insert := rfl
@[simp] lemma store_escSave : (s.store i bs).escSave = s.escSave := rfl
@[simp] lemma store_hist : (s.store i bs).hist = s.hist := rfl
@[simp] lemma store_buf : (s.store i bs).buf = s.buf.write i bs := rfl

@[simp] lemma store_nil : s.store i [] = s := by
  simp [Line.store]

lemma store_top (le : i + bs.length ≤ len) : (s.store i bs).top ≤ len ↔ s.top ≤ len := by
  rw [Line.store]
  simp only
  split
  · exact Iff.rfl
  · omega

end Store

section Commands

variable (h : Refines len s ed)
include h

/-- A byte is put at the cursor. -/
lemma Refines.put (pos : 0 < len) (c : UInt8) :
    Steps len s (s.addChar len c s.insert) (ed.exec len (.put c)) none := by
  have num := h.num
  have eol := h.eol
  have cap := h.cap
  have atEnd : s.num = s.eolNum ↔ ed.after = [] := by
    rw [num, eol, ← List.length_eq_zero_iff]
    omega
  rw [Line.addChar]
  by_cases inside : ed.overwrite ∧ ed.after ≠ []
  · -- over a byte of the line
    have ins : s.insert = false := by rw [h.insert, inside.1]; rfl
    have ne : s.num ≠ s.eolNum := fun e => inside.2 (atEnd.1 e)
    obtain ⟨d, rest, tail⟩ := List.exists_cons_of_ne_nil inside.2
    simp only [Editor.exec, if_pos inside, ins, ne, Bool.false_eq_true, false_or, false_and,
      if_false]
    refine Refines.steps ⟨?_, ?_, ?_, h.insert, h.hist, h.cap, h.fits⟩ rfl ?_
    · simp [num]
    · rw [eol, tail]
      simp
      omega
    · have room : s.eolNum = s.num + [c].length + rest.length := by
        rw [eol, tail, num, List.length_cons, List.length_singleton]
        omega
      have behind : s.buf.read (s.num + 1) rest.length = rest := by
        have after := h.after
        rw [tail, List.length_cons, Mem.read_succ] at after
        exact (List.cons.inj after).2
      simp only [store_buf]
      rw [room, read_written, List.length_singleton, behind, h.before, tail]
      rfl
    · have le : s.num + [c].length ≤ len := by
        rw [List.length_singleton]
        omega
      exact @store_top len s s.num [c] le
  · -- between the two parts
    have grows : s.insert = true ∨ s.num = s.eolNum := by
      rw [h.insert, atEnd]
      by_contra no
      simp only [not_or, Bool.not_eq_true', Bool.not_eq_false] at no
      exact inside no
    simp only [Editor.exec, if_neg inside, grows, true_and, if_true]
    by_cases full : s.eolNum > len - 1
    · rw [if_pos full, if_neg (by omega)]
      exact h.steps rfl Iff.rfl
    · rw [if_neg full, if_pos (show ed.before.length + ed.after.length < len from by omega)]
      have wlen : s.eolNum + 1 - s.num - 1 = ed.after.length := by omega
      -- moving nothing is no move
      have move : (if s.insert = true ∧ s.eolNum + 1 - s.num > 1 then
          s.store (s.num + 1) (s.buf.read s.num (s.eolNum + 1 - s.num - 1)) else s) =
            s.store (s.num + 1) ed.after := by
        rw [wlen, h.after]
        split_ifs with more
        · rfl
        · have nil : ed.after = [] := by
            rcases grows with ins | e
            · exact List.eq_nil_of_length_eq_zero (by
                have := not_and.1 more ins
                omega)
            · exact atEnd.1 e
          rw [nil, store_nil]
      rw [move]
      refine Refines.steps ⟨?_, ?_, ?_, h.insert, h.hist, ?_, h.fits⟩ rfl ?_
      · simp [num]
      · simp [eol]
        omega
      · have room : s.eolNum + 1 = s.num + [c].length + ed.after.length := by
          simp only [List.length_singleton]
          omega
        have moved : (s.buf.write (s.num + 1) ed.after).read (s.num + 1) ed.after.length =
            ed.after := Mem.read_write_self rfl
        have kept : (s.buf.write (s.num + 1) ed.after).read 0 s.num = ed.before := by
          rw [Mem.read_write_disjoint (.inl (by omega)), h.before]
        simp only [store_buf]
        rw [room, read_written, List.length_singleton, moved, kept]
      · show s.eolNum + 1 ≤ len
        omega
      · have le : s.num + [c].length ≤ len := by
          simp only [List.length_singleton]
          omega
        have le' : s.num + 1 + ed.after.length ≤ len := by omega
        exact (@store_top len (s.store (s.num + 1) ed.after) s.num [c] le).trans (store_top le')

/-- The cursor moves to the left. -/
lemma Refines.left :
    Steps len s (if s.num ≠ 0 then { s with num := s.num - 1 } else s) (ed.exec len .left) none := by
  have num := h.num
  rcases List.eq_nil_or_concat ed.before with nil | ⟨front, d, before⟩
  · have zero : s.num = 0 := by rw [num, nil]; rfl
    have same : ed.exec len .left = ed := by
      cases ed
      cases nil
      rfl
    rw [if_neg (not_not_intro zero), same]
    exact h.steps rfl Iff.rfl
  · have last : s.num = front.length + 1 := by simp [num, before]
    rw [if_pos (by omega)]
    refine Refines.steps ⟨?_, ?_, ?_, h.insert, h.hist, h.cap, h.fits⟩ rfl Iff.rfl
    · simp [Editor.exec, before, last]
    · simp [Editor.exec, before, h.eol]
      omega
    · simp [Editor.exec, before, h.text]

/-- The cursor moves to the right. -/
lemma Refines.right :
    Steps len s (if s.num < s.eolNum then { s with num := s.num + 1 } else s)
      (ed.exec len .right) none := by
  have num := h.num
  have eol := h.eol
  cases after : ed.after with
  | nil =>
    have same : ed.exec len .right = ed := by
      cases ed
      cases after
      simp [Editor.exec]
    rw [if_neg (by simp [num, eol, after]), same]
    exact h.steps rfl Iff.rfl
  | cons d rest =>
    rw [if_pos (by simp [num, eol, after])]
    refine Refines.steps ⟨?_, ?_, ?_, h.insert, h.hist, h.cap, h.fits⟩ rfl Iff.rfl
    · simp [Editor.exec, after, num]
    · simp [Editor.exec, after, eol]
      omega
    · simp [Editor.exec, after, h.text]

/-- The cursor moves to the start. -/
lemma Refines.home : Steps len s s.beginningOfLine (ed.exec len .home) none := by
  refine Refines.steps ⟨rfl, ?_, ?_, h.insert, h.hist, h.cap, h.fits⟩ rfl Iff.rfl
  · simp [Editor.exec, Line.beginningOfLine, h.eol]
  · simp [Editor.exec, Line.beginningOfLine, h.text]

/-- The cursor moves to the end. -/
lemma Refines.toEnd : Steps len s s.refreshToEol (ed.exec len .toEnd) none := by
  have num : s.refreshToEol = { s with num := s.eolNum } := by
    rw [Line.refreshToEol]
    split_ifs with more
    · rfl
    · have num := h.num
      have eol := h.eol
      have all : s.num = s.eolNum := by omega
      exact congrArg (fun n => { s with num := n }) all
  rw [num]
  refine Refines.steps ⟨?_, ?_, ?_, h.insert, h.hist, h.cap, h.fits⟩ rfl Iff.rfl
  · simp [Editor.exec, h.eol]
  · simp [Editor.exec, h.eol]
  · simp [Editor.exec, h.text]

/-- What is from the cursor on goes. -/
lemma Refines.killEnd : Steps len s s.eraseToEol (ed.exec len .killEnd) none := by
  have eol : s.eraseToEol = { s with eolNum := s.num } := by
    rw [Line.eraseToEol]
    split_ifs with more
    · rfl
    · have num := h.num
      have eol := h.eol
      have all : s.eolNum = s.num := by omega
      exact congrArg (fun n => { s with eolNum := n }) all
  have cap := h.cap
  have le : s.num ≤ s.eolNum := by
    rw [h.num, h.eol]
    exact Nat.le_add_right _ _
  rw [eol]
  refine Refines.steps ⟨h.num, ?_, ?_, h.insert, h.hist, ?_, h.fits⟩ rfl Iff.rfl
  · simp [Editor.exec, h.num]
  · simp [Editor.exec, h.before]
  · exact Nat.le_trans le cap

/-- The whole line goes. -/
lemma Refines.killLine :
    Steps len s s.beginningOfLine.eraseToEol (ed.exec len .killLine) none := by
  obtain ⟨refines, esc, top⟩ := h.home
  obtain ⟨refines', esc', top'⟩ := refines.killEnd
  exact ⟨refines', esc'.trans esc, top'.trans (by simp [top])⟩

/-- The byte under the cursor goes. -/
lemma Refines.eraseUnder :
    Steps len s
      (if s.num < s.eolNum then
        let wlen := s.eolNum - s.num - 1
        let moved := if wlen ≠ 0 then s.store s.num (s.buf.read (s.num + 1) wlen) else s
        { moved with eolNum := s.eolNum - 1 }
      else s)
      (ed.exec len .eraseUnder) none := by
  have num := h.num
  have eol := h.eol
  have cap := h.cap
  cases after : ed.after with
  | nil =>
    have same : ed.exec len .eraseUnder = ed := by
      cases ed
      cases after
      simp [Editor.exec]
    rw [if_neg (by simp [num, eol, after]), same]
    exact h.steps rfl Iff.rfl
  | cons d rest =>
    rw [after, List.length_cons] at eol
    rw [if_pos (by omega)]
    have behind : s.buf.read (s.num + 1) rest.length = rest := by
      have text := h.after
      rw [after, List.length_cons, Mem.read_succ] at text
      exact (List.cons.inj text).2
    have wlen : s.eolNum - s.num - 1 = rest.length := by omega
    have move : (if rest.length ≠ 0 then s.store s.num rest else s) = s.store s.num rest := by
      split_ifs with none
      · rfl
      · rw [List.eq_nil_of_length_eq_zero (not_not.1 none), store_nil]
    simp only [wlen, behind, move]
    refine Refines.steps ⟨num, ?_, ?_, h.insert, h.hist, ?_, h.fits⟩ rfl ?_
    · simp [Editor.exec, after, eol]
    · have room : s.eolNum - 1 = s.num + rest.length + 0 := by omega
      simp only [store_buf]
      rw [room, read_written, h.before, Mem.read_zero, List.append_nil]
      simp [Editor.exec, after]
    · exact Nat.le_trans (Nat.sub_le _ _) cap
    · exact store_top (by omega)

/-- The byte before the cursor goes. -/
lemma Refines.eraseLeft :
    Steps len s
      (if s.num ≠ 0 then
        let wlen := s.eolNum - s.num
        let num := s.num - 1
        { s.store num (s.buf.read (num + 1) wlen) with num, eolNum := s.eolNum - 1 }
      else s)
      (ed.exec len .eraseLeft) none := by
  have num := h.num
  have eol := h.eol
  have cap := h.cap
  rcases List.eq_nil_or_concat ed.before with nil | ⟨front, d, before⟩
  · have zero : s.num = 0 := by rw [num, nil]; rfl
    have same : ed.exec len .eraseLeft = ed := by
      cases ed
      cases nil
      rfl
    rw [if_neg (not_not_intro zero), same]
    exact h.steps rfl Iff.rfl
  · rw [before, List.concat_eq_append, List.length_append, List.length_singleton] at num eol
    rw [if_pos (by omega)]
    have back : s.num - 1 = front.length := by omega
    have wlen : s.eolNum - s.num = ed.after.length := by omega
    have behind : s.buf.read (front.length + 1) ed.after.length = ed.after := by
      rw [← num]
      exact h.after
    have kept : s.buf.read 0 front.length = front := by
      have text := h.before
      rw [num, Mem.read_add, before, List.concat_eq_append] at text
      exact (List.append_inj text (Mem.length_read)).1
    simp only [back, wlen, behind]
    refine Refines.steps ⟨?_, ?_, ?_, h.insert, h.hist, ?_, h.fits⟩ rfl ?_
    · simp [Editor.exec, before]
    · simp [Editor.exec, before, eol]
    · have room : s.eolNum - 1 = front.length + ed.after.length + 0 := by omega
      simp only [store_buf]
      rw [room, read_written, kept, Mem.read_zero, List.append_nil]
      simp [Editor.exec, before]
    · exact Nat.le_trans (Nat.sub_le _ _) cap
    · exact store_top (by omega)

/-- Insert and overwrite are exchanged. -/
lemma Refines.toggle : Steps len s { s with insert := !s.insert } (ed.exec len .toggle) none := by
  refine Refines.steps ⟨h.num, h.eol, h.text, ?_, h.hist, h.cap, h.fits⟩ rfl Iff.rfl
  simp [Editor.exec, h.insert]

/-- The line is replaced by one of the history. -/
lemma Refines.recall {r : Hist × Option CStr} (fits : r.1.Fits len)
    (line : ∀ l ∈ r.2, l.length ≤ len) : Steps len s (s.recall r) (ed.recall r) r.2 := by
  obtain ⟨hist, found⟩ := r
  cases found with
  | none =>
    exact Refines.steps ⟨h.num, h.eol, h.text, h.insert, rfl, h.cap, fits⟩ rfl Iff.rfl
  | some l =>
    have same : Refines len { s with hist := hist } { ed with hist := hist } :=
      ⟨h.num, h.eol, h.text, h.insert, rfl, h.cap, fits⟩
    obtain ⟨refines, esc, top⟩ := same.killLine
    generalize gone : { s with hist := hist }.beginningOfLine.eraseToEol = s₁ at refines esc top
    have copied : Refines len { s₁.store 0 (l ++ [0]) with eolNum := l.length }
        { ed with before := [], after := l, hist := hist } := by
      refine ⟨refines.num, ?_, ?_, refines.insert, refines.hist, line l rfl, fits⟩
      · simp
      · simp only [store_buf]
        rw [Mem.write_append, Mem.read_write_disjoint (.inl (by omega)), Mem.read_write_self rfl]
        rfl
    obtain ⟨refines', esc', top'⟩ := copied.toEnd
    have code : s.recall (hist, some l) =
        { s₁.store 0 (l ++ [0]) with eolNum := l.length }.refreshToEol := by
      rw [← gone]
      rfl
    rw [code]
    refine ⟨?_, esc'.trans esc, ?_⟩
    · exact refines'
    · have kept : s₁.top ≤ len ↔ s.top ≤ len := by simpa using top
      have stored : (s₁.store 0 (l ++ [0])).top = max s₁.top (l.length + 1) := by simp [Line.store]
      have room : (∀ l' ∈ some l, l'.length < len) ↔ l.length + 1 ≤ len := by
        constructor
        · intro all
          exact all l rfl
        · rintro le l' ⟨⟩
          exact le
      have nothing : ∀ l' ∈ (none : Option CStr), l'.length < len := fun _ mem => nomatch mem
      rw [top', stored, Nat.max_le, kept, room, and_iff_left nothing]

end Commands

/-! ## Keys -/

section History

variable {h : Hist}

/-- The line before the current one is one of the history. -/
lemma prev_fits (fits : h.Fits len) :
    h.prev.1.Fits len ∧ ∀ l ∈ h.prev.2, l.length ≤ len := by
  rw [Hist.prev]
  cases h.cur with
  | none => exact ⟨fits, by simp⟩
  | some old =>
    simp only
    split_ifs
    · exact ⟨fits, by simp⟩
    · exact ⟨fits, by simpa using fits _⟩
    · exact ⟨fits, by simp⟩
    · exact ⟨fits, by simpa using fits _⟩

/-- The line after the current one is one of the history or empty. -/
lemma next_fits (fits : h.Fits len) :
    h.next.1.Fits len ∧ ∀ l ∈ h.next.2, l.length ≤ len := by
  rw [Hist.next]
  cases h.cur with
  | none => exact ⟨fits, by simp⟩
  | some old =>
    simp only
    split_ifs
    · exact ⟨fits, by simp⟩
    · exact ⟨fits, by simp⟩
    · exact ⟨fits, by simpa using fits _⟩
    · exact ⟨fits, by simp⟩
    · exact ⟨fits, by simpa using fits _⟩

end History

/-- The line before the current one is recalled. -/
lemma Refines.prev (h : Refines len s ed) :
    Steps len s (s.recall s.hist.prev) (ed.exec len .prev) (ed.recalled .prev) := by
  rw [h.hist]
  obtain ⟨fits, line⟩ := prev_fits h.fits
  exact h.recall fits line

/-- The line after the current one is recalled. -/
lemma Refines.next (h : Refines len s ed) :
    Steps len s (s.recall s.hist.next) (ed.exec len .next) (ed.recalled .next) := by
  rw [h.hist]
  obtain ⟨fits, line⟩ := next_fits h.fits
  exact h.recall fits line

/-- The bytes that are commands. -/
def controls : List UInt8 := [1, 2, 4, 5, 6, 8, 127, 255, 11, 14, 15, 16, 21, 24]

/-- A byte that is not the start of an escape sequence does what its command says. -/
lemma Refines.dispatch (h : Refines len s ed) (pos : 0 < len) (esc : k ≠ 27) :
    Steps len s (s.dispatch len k) (ed.exec len (command k)) (ed.recalled (command k)) := by
  by_cases control : k ∈ controls
  · simp only [controls, List.mem_cons, List.not_mem_nil, or_false] at control
    rcases control with rfl | rfl | rfl | rfl | rfl | rfl | rfl | rfl | rfl | rfl | rfl | rfl | rfl | rfl
    · exact h.home
    · exact h.left
    · exact h.eraseUnder
    · exact h.toEnd
    · exact h.right
    · exact h.eraseLeft
    · exact h.eraseLeft
    · exact h.eraseLeft
    · exact h.killEnd
    · exact h.next
    · exact h.toggle
    · exact h.prev
    · exact h.killLine
    · exact h.killLine
  · simp only [controls, List.mem_cons, List.not_mem_nil, or_false, not_or] at control
    have put : command k = .put k := by simp [command, control]
    have code : s.dispatch len k = s.addChar len k s.insert := by simp [Line.dispatch, control, esc]
    rw [put, code]
    exact h.put pos k

/-- Putting a byte leaves the mode. -/
lemma exec_put_overwrite : (ed.exec len (.put c)).overwrite = ed.overwrite := by
  rw [Editor.exec]
  split_ifs <;> rfl

/-- Some bytes are put one after the other. -/
lemma Refines.puts (h : Refines len s ed) (pos : 0 < len) (bs : List UInt8) :
    Steps len s (s.addStr len bs s.insert) ((bs.map Cmd.put).foldl (Editor.exec len) ed) none := by
  induction bs generalizing s ed with
  | nil => exact h.steps rfl Iff.rfl
  | cons c bs ih =>
    obtain ⟨refines, esc, top⟩ := h.put pos c
    have mode : (s.addChar len c s.insert).insert = s.insert := by
      rw [refines.insert, h.insert, exec_put_overwrite]
    have rest := ih refines
    rw [mode] at rest
    exact ⟨rest.refines, rest.esc.trans esc, rest.top.trans (by simpa using top)⟩

/-! ## A key -/

/-- The variables of `cread_line` hold the line and the bytes of an escape sequence of a session. -/
structure Line.Holds (len : Nat) (s : Line) (x : Session) : Prop where
  refines : Refines len s x.ed
  pending : s.escSave = x.pending

/-- The bytes that end a known escape sequence. -/
lemma arrow_eq : arrow k = (escKey k).map command := by
  rw [arrow, escKey]
  split_ifs <;> first | rfl | (subst k; contradiction)

/-- An escape sequence does not stand for an escape. -/
lemma escKey_ne {key : UInt8} (h : escKey k = some key) : key ≠ 27 := by
  rw [escKey] at h
  split_ifs at h <;> cases h <;> decide

/-- The escape sequence is over: another line with nothing saved refines the same editor. -/
lemma Refines.cleared (h : Refines len s ed) {bs : List UInt8} :
    Refines len { s with escSave := bs } ed :=
  ⟨h.num, h.eol, h.text, h.insert, h.hist, h.cap, h.fits⟩

/-- Nothing is recalled by putting bytes. -/
lemma recalled_puts {x : Session} {bs : List UInt8} (h : (decode x.pending k).2 = bs.map .put) :
    x.recalled k = none := by
  rw [Session.recalled, h]
  rcases bs with _ | ⟨b, _ | ⟨b', bs⟩⟩ <;> rfl

/-- A key keeps the refinement, and what it stores is inside of the buffer if the line it recalls is
shorter than the buffer. -/
lemma holds_key {x : Session} (h : s.Holds len x) (pos : 0 < len) (k : UInt8) :
    (s.key len k).Holds len (x.key len k) ∧
      ((s.key len k).top ≤ len ↔ s.top ≤ len ∧ ∀ l ∈ x.recalled k, l.length < len) := by
  obtain ⟨ed, pending⟩ := x
  obtain ⟨refines, saved⟩ := h
  simp only at refines saved
  subst saved
  rw [Line.key]
  rcases esc : s.escSave with _ | ⟨a, _ | ⟨b, more⟩⟩
  · -- outside of a sequence
    by_cases start : k = 27
    · subst start
      exact ⟨⟨refines.cleared, rfl⟩, by simp [Session.recalled, decode, Line.dispatch]⟩
    · have cmd : decode [] k = ([], [command k]) := by simp [decode, start]
      obtain ⟨refines', esc', top'⟩ := refines.dispatch pos start
      refine ⟨⟨?_, ?_⟩, ?_⟩
      · simpa [Session.key, cmd] using refines'
      · simpa [Session.key, cmd] using esc'.trans esc
      · simpa [Session.recalled, cmd] using top'
  · -- after an escape
    by_cases bracket : k = 91
    · subst bracket
      exact ⟨⟨refines.cleared, rfl⟩, by simp [Session.recalled, decode]⟩
    · have cmd : decode [a] k = ([], [Cmd.put a]) := by simp [decode, bracket]
      obtain ⟨refines', -, top'⟩ := refines.puts pos [a]
      rw [if_neg bracket]
      refine ⟨⟨?_, ?_⟩, ?_⟩
      · simpa [Session.key, cmd] using refines'.cleared
      · simp [Session.key, cmd]
      · simpa [Session.recalled, cmd, Editor.recalled] using top'
  · -- after an escape and a bracket
    cases key : escKey k with
    | some c =>
      have cmd : decode (a :: b :: more) k = ([], [command c]) := by
        simp [decode, arrow_eq, key]
      obtain ⟨refines', esc', top'⟩ := refines.cleared.dispatch pos (escKey_ne key)
      refine ⟨⟨?_, ?_⟩, ?_⟩
      · simpa [Session.key, cmd] using refines'
      · simpa [Session.key, cmd] using esc'
      · simpa [Session.recalled, cmd] using top'
    | none =>
      have cmd : decode (a :: b :: more) k = ([], (a :: b :: more ++ [k]).map Cmd.put) := by
        simp [decode, arrow_eq, key]
      obtain ⟨refines', -, top'⟩ := refines.puts pos (a :: b :: more ++ [k])
      refine ⟨⟨?_, ?_⟩, ?_⟩
      · simpa [Session.key, cmd] using refines'.cleared
      · simp [Session.key, cmd]
      · rw [recalled_puts (congrArg Prod.snd cmd)]
        simpa using top'

/-! ## A run -/

/-- The session when the editor starts on some text. -/
def Session.start (init : CStr) (hist : Hist) : Session where
  ed := { before := init, after := [], overwrite := false, hist }
  pending := []

/-- A byte put at the end of the line where it already is changes nothing in the buffer. -/
lemma addChar_same (atEnd : s.num = s.eolNum) (room : s.eolNum < len) :
    (s.addChar len (s.buf s.num) true).buf = s.buf := by
  have one : ¬ (s.eolNum + 1 - s.num > 1) := by omega
  have free : ¬ (s.eolNum > len - 1) := by omega
  simp only [Line.addChar, true_or, true_and, if_neg free, if_true, if_neg one, store_buf]
  funext i
  by_cases here : i = s.num
  · subst here
    exact Mem.write_at (i := 0) (by simp)
  · by_cases below : i < s.num
    · exact Mem.write_below below
    · exact Mem.write_above (by simp; omega)

/-- The loop that puts the bytes of the buffer back arrives at the session that starts with them. -/
lemma initLoop_holds {buf : Mem} {hist : Hist} {n i : Nat} (pos : 0 < len) (room : i + n ≤ len)
    (h : s.Holds len (.start (buf.read 0 i) hist)) (same : s.buf = buf) :
    (Line.initLoop len n i s).Holds len (.start (buf.read 0 (i + n)) hist) ∧
      ((Line.initLoop len n i s).top ≤ len ↔ s.top ≤ len) := by
  induction n generalizing i s with
  | zero => exact ⟨h, Iff.rfl⟩
  | succ n ih =>
    obtain ⟨refines, esc⟩ := h
    have num : s.num = i := by simpa [Session.start] using refines.num
    have eol : s.eolNum = i := by simpa [Session.start] using refines.eol
    have mode : s.insert = true := refines.insert
    obtain ⟨refines', esc', top'⟩ := refines.put pos (s.buf i)
    rw [mode] at refines' esc' top'
    have next : Editor.exec len (Session.start (buf.read 0 i) hist).ed (.put (s.buf i)) =
        (Session.start (buf.read 0 (i + 1)) hist).ed := by
      have fits : i < len := by omega
      have byte : buf.read 0 i ++ [buf i] = buf.read 0 (i + 1) := by
        rw [Mem.read_add, Nat.zero_add, Mem.read_succ, Mem.read_zero]
      simp [Editor.exec, Session.start, fits, same, byte]
    have kept : (s.addChar len (s.buf i) true).buf = buf := by
      rw [← num, addChar_same (num.trans eol.symm) (by omega), same]
    rw [next] at refines'
    obtain ⟨holds, top⟩ := ih (by omega) ⟨refines', esc'.trans esc⟩ kept
    have count : i + (n + 1) = i + 1 + n := by omega
    rw [Line.initLoop, count]
    exact ⟨holds, top.trans (by simpa using top')⟩

/-- When the code begins to wait for keys it holds the text of the buffer. -/
lemma start_holds {buf : Mem} {initLen : Nat} {hist : Hist} (pos : 0 < len) (room : initLen ≤ len)
    (fits : hist.Fits len) :
    (Line.start len buf initLen hist).Holds len (.start (buf.read 0 initLen) hist) ∧
      (Line.start len buf initLen hist).top ≤ len := by
  have empty : Line.Holds len
      { buf, num := 0, eolNum := 0, insert := true, escSave := [], hist, top := 0 }
      (.start (buf.read 0 0) hist) :=
    ⟨⟨rfl, rfl, rfl, rfl, rfl, Nat.zero_le _, fits⟩, rfl⟩
  have all : 0 + initLen ≤ len := by omega
  obtain ⟨holds, top⟩ := initLoop_holds pos all empty rfl
  rw [Nat.zero_add] at holds
  exact ⟨holds, top.2 (Nat.zero_le _)⟩

/-- What a key recalls is shorter than the buffer. -/
def Session.Recalls (len : Nat) (x : Session) (k : UInt8) : Prop :=
  ∀ l ∈ x.recalled k, l.length < len

/-- A run of keys keeps the refinement, and it stores inside of the buffer exactly if every line it
recalls is shorter than the buffer. -/
lemma holds_run {x : Session} (h : s.Holds len x) (pos : 0 < len) (keys : List UInt8) :
    (keys.foldl (Line.key len) s).Holds len (keys.foldl (Session.key len) x) ∧
      ((keys.foldl (Line.key len) s).top ≤ len ↔
        s.top ≤ len ∧ Along (Session.Recalls len) (Session.key len) x keys) := by
  induction keys generalizing s x with
  | nil => exact ⟨h, by simp [Along]⟩
  | cons k keys ih =>
    obtain ⟨holds, top⟩ := holds_key h pos k
    obtain ⟨holds', top'⟩ := ih holds
    refine ⟨holds', ?_⟩
    rw [List.foldl_cons, top', top, and_assoc]
    rfl

/-- A key that is neither TAB, nor the end of the line, nor a break. -/
def Plain (k : UInt8) : Prop := k ≠ 9 ∧ k ≠ 10 ∧ k ≠ 13 ∧ k ≠ 3

/-- The loop of `cread_line` over such keys. -/
lemma creadLine_append {keys rest : List UInt8} (plain : ∀ k ∈ keys, Plain k) :
    creadLine len s (keys ++ rest) = creadLine len (keys.foldl (Line.key len) s) rest := by
  induction keys generalizing s with
  | nil => rfl
  | cons k keys ih =>
    obtain ⟨-, lf, cr, brk⟩ := plain k List.mem_cons_self
    rw [List.cons_append, creadLine, if_neg (by simp [lf, cr]), if_neg (by simp [brk]),
      ih fun k' mem => plain k' (List.mem_cons_of_mem k mem)]
    rfl

/-! ## The end of the line -/

/-- Adding a line that fits. -/
lemma add_fits {h : Hist} {line : CStr} (fits : h.Fits len) (le : line.length ≤ len) :
    (h.add line).Fits len := by
  intro i
  by_cases here : i = h.addIdx
  · subst here
    simpa [Hist.add] using le
  · simpa [Hist.add, here] using fits i

/-- The line goes to the history only if it fits. -/
lemma finish_fits (h : Refines len s ed) : s.finish.hist.Fits len := by
  have fits : s.hist.Fits len := by
    rw [h.hist]
    exact h.fits
  have short : ∀ m : Mem, ((m.read 0 s.eolNum).takeWhile (· != 0)).length ≤ len := by
    intro m
    have le := (List.takeWhile_sublist (l := m.read 0 s.eolNum) (· != 0)).length_le
    rw [Mem.length_read] at le
    exact Nat.le_trans le h.cap
  exact iteInduction (motive := Hist.Fits len) (fun _ => add_fits fits (short _)) fun _ => fits

/-- The NUL behind the line has room exactly if the line is shorter than the buffer. -/
lemma finish_top : s.finish.top ≤ len ↔ s.top ≤ len ∧ s.eolNum < len := by
  have stored : s.finish.top = max s.top (s.eolNum + 1) := rfl
  omega

/-! ## Before relocation -/

/-- The simple loop keeps room for a NUL. -/
structure Simple.Inside (cbsize : Nat) (s : Simple) : Prop where
  room : s.n + 1 ≤ cbsize
  top : s.top ≤ cbsize

section Simple

variable {cbsize : Nat} {s : Simple}

/-- Storing at the pointer or before. -/
lemma Simple.Inside.store (h : s.Inside cbsize) {i : Nat} {c : UInt8} (le : i ≤ s.n) :
    (s.store i c).Inside cbsize := by
  have room := h.room
  have top := h.top
  refine ⟨room, ?_⟩
  simp only [Simple.store]
  omega

/-- Moving the pointer back. -/
lemma Simple.Inside.back (h : s.Inside cbsize) {n : Nat} (le : n ≤ s.n) :
    Simple.Inside cbsize { s with n } :=
  ⟨Nat.le_trans (Nat.add_le_add_right le 1) h.room, h.top⟩

/-- Deleting a word. -/
lemma Simple.Inside.wordLoop (h : s.Inside cbsize) (fuel : Nat) :
    (s.wordLoop fuel).Inside cbsize := by
  induction fuel generalizing s with
  | zero => exact h
  | succ fuel ih =>
    rw [Simple.wordLoop]
    split_ifs
    · exact ih (h.back (Nat.sub_le _ _))
    · exact h

/-- The simple loop stores inside of the buffer. -/
lemma simpleLoop_top (h : s.Inside cbsize) (keys : List UInt8) :
    (simpleLoop cbsize s keys).1.top ≤ cbsize := by
  induction keys generalizing s with
  | nil => exact h.top
  | cons c keys ih =>
    rw [simpleLoop]
    split_ifs with enter nul brk line word del room
    · exact (h.store (Nat.le_refl _)).top
    · exact ih h
    · exact (h.store (Nat.zero_le _)).top
    · exact ih (h.back (Nat.zero_le _))
    · exact ih (Simple.Inside.wordLoop (h.back (Nat.sub_le _ _)) _)
    · exact ih (h.back (Nat.sub_le _ _))
    · have stored := h.store (i := s.n) (c := c) (Nat.le_refl _)
      exact ih ⟨by simp only; omega, stored.top⟩
    · exact ih h

end Simple

/-! ## The line editor -/

/-- The session after some keys on a buffer that holds a text. -/
def session (cbsize : Nat) (init : CStr) (hist : Hist) (keys : List UInt8) : Session :=
  keys.foldl (Session.key cbsize) (.start init hist)

/-- The variables of `cread_line` after some keys. -/
def edited (cbsize : Nat) (buf : Mem) (initLen : Nat) (hist : Hist) (keys : List UInt8) : Line :=
  keys.foldl (Line.key cbsize) (.start cbsize buf initLen hist)

/-- The buffer split at the cursor is the line of the editor, within its length. -/
structure Line.Shows (cbsize : Nat) (s : Line) (ed : Editor) : Prop where
  before : s.buf.read 0 s.num = ed.before
  after : s.buf.read s.num (s.eolNum - s.num) = ed.after
  num : s.num ≤ s.eolNum
  eol : s.eolNum ≤ cbsize

/-- A refinement shows the line. -/
lemma Refines.shows (h : Refines len s ed) : s.Shows len ed := by
  have num := h.num
  have eol := h.eol
  have count : s.eolNum - s.num = ed.after.length := by omega
  refine ⟨h.before, ?_, by omega, h.cap⟩
  rw [count]
  exact h.after

section Input

variable {cbsize initLen : Nat} {buf : Mem} {hist : Hist} {keys : List UInt8}

/-- The code holds the line of the editor after every key. -/
lemma edited_shows (pos : 0 < cbsize) (short : initLen < cbsize) (fits : hist.Fits cbsize)
    (keys : List UInt8) :
    (edited cbsize buf initLen hist keys).Shows cbsize
      (session cbsize (buf.read 0 initLen) hist keys).ed := by
  obtain ⟨started, -⟩ := start_holds pos (Nat.le_of_lt short) fits
  exact (holds_run started pos keys).1.refines.shows

/-- Reading a line stores inside of the buffer exactly if every line that is recalled and the line
that is entered are shorter than it. -/
lemma stores_iff (pos : 0 < cbsize) (short : initLen < cbsize) (fits : hist.Fits cbsize)
    (plain : ∀ k ∈ keys, Plain k) (enter : Option UInt8) (ends : ∀ c ∈ enter, c = 10 ∨ c = 13) :
    (∀ reloc, (cliReadlineIntoBuffer cbsize reloc buf initLen hist (keys ++ enter.toList)).1 ≤
        cbsize) ↔
      Along (Session.Recalls cbsize) (Session.key cbsize) (.start (buf.read 0 initLen) hist) keys ∧
        (enter ≠ none →
          let ed := (session cbsize (buf.read 0 initLen) hist keys).ed
          ed.before.length + ed.after.length < cbsize) := by
  obtain ⟨started, top0⟩ :=
    @start_holds cbsize buf initLen hist pos (Nat.le_of_lt short) fits
  obtain ⟨holds, top⟩ := holds_run started pos keys
  have eol := holds.refines.eol
  have flash : (cliReadlineIntoBuffer cbsize false buf initLen hist (keys ++ enter.toList)).1 ≤
      cbsize :=
    simpleLoop_top ⟨Nat.succ_le_of_lt pos, Nat.zero_le _⟩ (keys ++ enter.toList)
  have ram : (cliReadlineIntoBuffer cbsize true buf initLen hist (keys ++ enter.toList)).1 ≤
      cbsize ↔
        (creadLine cbsize (edited cbsize buf initLen hist keys) enter.toList).1.top ≤ cbsize := by
    rw [edited, ← creadLine_append plain]
    rfl
  simp only [Bool.forall_bool, flash, true_and, ram]
  simp only [top0, true_and] at top
  cases enter with
  | none =>
    simp only [Option.toList_none, creadLine, ne_eq, not_true_eq_false, false_implies, and_true]
    exact top
  | some c =>
    have done : c = 10 ∨ c = 13 := ends c rfl
    simp only [Option.toList_some, creadLine, if_pos done, finish_top]
    simp only [edited, session, top, eol]
    simp

end Input

/-- `cread_line` is the line editor after every key, and together with its caller it stores inside
of a buffer of `CONFIG_SYS_CBSIZE` bytes, exactly if no line of that length is recalled from the
history or entered. -/
theorem readline_iff (cbsize : Nat) (pos : 0 < cbsize) (buf : Mem) (initLen : Nat)
    (short : initLen < cbsize) (hist : Hist) (fits : hist.Fits cbsize) (keys : List UInt8)
    (plain : ∀ k ∈ keys, Plain k) (enter : Option UInt8) (ends : ∀ c ∈ enter, c = 10 ∨ c = 13) :
    ((∀ ks, ks <+: keys → (edited cbsize buf initLen hist ks).Shows cbsize
        (session cbsize (buf.read 0 initLen) hist ks).ed) ∧
      ∀ reloc, (cliReadlineIntoBuffer cbsize reloc buf initLen hist (keys ++ enter.toList)).1 ≤
        cbsize) ↔
      Along (Session.Recalls cbsize) (Session.key cbsize) (.start (buf.read 0 initLen) hist) keys ∧
        (enter ≠ none →
          let ed := (session cbsize (buf.read 0 initLen) hist keys).ed
          ed.before.length + ed.after.length < cbsize) := by
  have shows : ∀ ks, ks <+: keys → (edited cbsize buf initLen hist ks).Shows cbsize
      (session cbsize (buf.read 0 initLen) hist ks).ed :=
    fun ks _ => edited_shows pos short fits ks
  rw [and_iff_right shows]
  exact stores_iff pos short fits plain enter ends

/-- Five keys and the end of the line, in a buffer of eight bytes: the text is `cab`. -/
theorem readline_iff_short :
    ((∀ ks, ks <+: [97, 98, 27, 91, 72, 99] → (edited 8 Mem.zero 0 Hist.init ks).Shows 8
        (session 8 [] Hist.init ks).ed) ∧
      ∀ reloc, (cliReadlineIntoBuffer 8 reloc Mem.zero 0 Hist.init
        ([97, 98, 27, 91, 72, 99] ++ [13])).1 ≤ 8) ∧
      (session 8 [] Hist.init [97, 98, 27, 91, 72, 99]).ed.before = [99] ∧
      (session 8 [] Hist.init [97, 98, 27, 91, 72, 99]).ed.after = [97, 98] := by
  have fits : Hist.init.Fits 8 := fun _ => Nat.zero_le _
  refine ⟨(readline_iff 8 (by decide) Mem.zero 0 (by decide) Hist.init fits
    [97, 98, 27, 91, 72, 99] ?_ (some 13) (by simp)).2 ⟨?_, ?_⟩, rfl, rfl⟩
  · simp [Plain]
  · refine ⟨?_, ?_, ?_, ?_, ?_, ?_, trivial⟩ <;> intro l mem <;> cases mem
  · intro _
    decide

/-- Typing a byte over and over, as long as there is room for it. -/
lemma session_typed {cap n : Nat} (le : n ≤ cap) :
    session cap [] Hist.init (List.replicate n 97) =
      .start (List.replicate n 97) Hist.init := by
  induction n with
  | zero => rfl
  | succ n ih =>
    have room : n < cap := by omega
    rw [List.replicate_succ', session, List.foldl_append, ← session, ih (Nat.le_of_lt room)]
    simp [Session.key, Session.start, decode, command, Editor.exec, room]

/-- A line as long as the buffer can be typed, and its NUL goes behind the buffer. -/
lemma typed_overruns {cap : Nat} (pos : 0 < cap) :
    ¬ ∀ reloc, (cliReadlineIntoBuffer cap reloc Mem.zero 0 Hist.init
      (List.replicate cap 97 ++ [13])).1 ≤ cap := by
  intro le
  have fits : Hist.init.Fits cap := fun _ => Nat.zero_le _
  have plain : ∀ k ∈ List.replicate cap (97 : UInt8), Plain k := by
    intro k mem
    rw [List.eq_of_mem_replicate mem]
    simp [Plain]
  obtain ⟨-, room⟩ := (stores_iff pos pos fits plain (some 13) (by simp)).1 le
  rw [Mem.read_zero, session_typed (Nat.le_refl cap)] at room
  simp [Session.start] at room

/-- A line of 512 bytes typed into a buffer of 512: the NUL goes behind the buffer. -/
theorem readline_overruns :
    ¬ ((∀ ks, ks <+: List.replicate 512 97 → (edited 512 Mem.zero 0 Hist.init ks).Shows 512
        (session 512 [] Hist.init ks).ed) ∧
      ∀ reloc, (cliReadlineIntoBuffer 512 reloc Mem.zero 0 Hist.init
        (List.replicate 512 97 ++ [13])).1 ≤ 512) :=
  fun all => typed_overruns (by decide) all.2

end Imx.Readline
