import Imx.Base.Ring
import Imx.Fec.Defs

/-!
# Frames are delivered in order

What the receive ring hands up while the controller runs on. The ring holds a queue (`Ring`): the
frames the controller has stored, of which some were done with and, a line of descriptors at a time,
given back; `At` says where the driver is in it. Both are kept by every step that `Ok` admits, and
`run_delivers` follows: what was passed up is a prefix of the good frames that were stored.

`Ok` leaves out two things. After a graceful stop the driver still reads the descriptor it had
chosen before the restart, which must not have been filled again. And the length of a descriptor is
cleared behind its mark: the controller must not store a frame in between.
-/

namespace Imx.Fec
open Imx.Base

/-! ## What is to hold -/

/-- What was passed up is in order and complete so far, and the ring is closed at its last
descriptor. -/
structure Delivers (s : State) : Prop where
  inOrder : s.passed <+: (s.stored.filter Frame.good).map Frame.payload
  wrap : ∀ i < rbdNum, (s.bd i).wrap = true ↔ i = rbdNum - 1

/-- A descriptor is marked empty only when its frame was passed up or dropped, or to restart the
controller. -/
def KeepsFrames (line : Line) (s : State) (a : Action) : Prop :=
  ∀ i < rbdNum, (s.bd i).empty = false → ((step line s a).bd i).empty = true →
    s.pending i = false ∨ a = .go ∧ ∃ next, s.pc = .init next

/-- A step is as it should be. -/
structure Safe (line : Line) (s : State) (a : Action) : Prop where
  before : Delivers s
  keeps : KeepsFrames line s a
  after : Delivers (step line s a)

/-- The descriptor that was chosen is the next one, or empty; no frame is stored in a descriptor
between its mark and its length. -/
def Ok (s : State) (a : Action) : Prop :=
  match s.pc, a with
  | .status rbd, .go => rbd = s.rbdIndex ∨ (s.bd rbd).empty = true
  | .cleanLength i, .store _ => s.next ≠ i
  | _, _ => True

instance {s : State} {a : Action} : Decidable (Ok s a) := by
  unfold Ok
  split <;> infer_instance

/-- The driver and the controller after `fec_init`. -/
def State.start (s : State) : State := { s.fecInit with pc := .idle }

/-! ## The invariant -/

/-- The frame in a descriptor. -/
def Bd.content (b : Bd) : Option Frame := if b.empty then none else some ⟨b.data, b.last, b.err⟩

/-- The ring holds the queue of the frames that were stored. -/
structure Ring (s : State) (q : Queue Frame rbdNum) : Prop where
  here : q.In fun i => (s.bd i).content
  stored : q.put = s.stored
  next : s.next = q.put.length % rbdNum
  passed : s.passed = ((q.put.take q.taken).filter Frame.good).map Frame.payload
  wrap : ∀ i < rbdNum, (s.bd i).wrap = decide (i = rbdNum - 1)
  length : ∀ i < rbdNum, (s.bd i).empty = false → (s.bd i).length = (s.bd i).data.length
  done : ∀ p, q.freed ≤ p → p < q.taken → s.pending (p % rbdNum) = false

/-- No line is being given back, and the driver is at the frame in front. -/
structure Aligned (line : Line) (s : State) (q : Queue Frame rbdNum) : Prop where
  dvd : line.descs ∣ q.freed
  within : q.taken < q.freed + line.descs
  index : s.rbdIndex = q.taken % rbdNum

/-- The driver looks at the frame in front, which is so. -/
structure Looking (line : Line) (s : State) (q : Queue Frame rbdNum) (rbd : Nat) (f : Frame) :
    Prop where
  aligned : Aligned line s q
  index : rbd = s.rbdIndex
  front : q.put[q.taken]? = some f
  good : f.last = true ∧ f.err = false

/-- The line from position `g` on is given back, `r` of its descriptors already are. -/
structure Cleaning (line : Line) (s : State) (q : Queue Frame rbdNum) (g r : Nat) : Prop where
  dvd : line.descs ∣ g
  lt : r < line.descs
  taken : q.taken = g + line.descs
  index : s.rbdIndex = g % rbdNum + (line.descs - 1)

/-- Where the driver is in the queue. -/
def At (line : Line) (s : State) (q : Queue Frame rbdNum) : Prop :=
  match s.pc with
  | .idle => Aligned line s q
  | .events rbd => Aligned line s q ∧ rbd = s.rbdIndex
  | .halt _ => True
  | .init _ => True
  | .status _ => Aligned line s q
  | .length rbd => ∃ f, Looking line s q rbd f
  | .frameLength rbd => ∃ f, Looking line s q rbd f ∧ f.good = true
  | .copy rbd len => ∃ f, Looking line s q rbd f ∧ f.good = true ∧ len = f.bytes.length - 4
  | .clean i => ∃ g r, Cleaning line s q g r ∧ q.freed = g + r ∧ i = g % rbdNum + r
  | .cleanLength i => ∃ g r, Cleaning line s q g r ∧ q.freed = g + r + 1 ∧ i = g % rbdNum + r ∧
      q.put.length < q.freed + rbdNum
  | .advance => line.descs ∣ q.freed ∧ q.taken < q.freed + line.descs ∧ 0 < q.taken ∧
      s.rbdIndex = (q.taken - 1) % rbdNum

/-- The invariant of a run. -/
def State.Inv (line : Line) (s : State) : Prop := ∃ q, Ring s q ∧ At line s q

variable {line : Line} {s : State} {q : Queue Frame rbdNum} {f : Frame} {a : Action} {b : Bd}
variable {g i r rbd len : Nat}

lemma rbdNum_pos : 0 < rbdNum := by decide

/-! ## Lines -/

lemma Line.descs_pos : 0 < line.descs := Nat.two_pow_pos line.shift

lemma Line.descs_dvd : line.descs ∣ rbdNum := Nat.pow_dvd_pow 2 line.le

/-- A line lies in one piece in the ring. -/
lemma slot_add (dvd : line.descs ∣ g) (lt : r < line.descs) :
    (g + r) % rbdNum = g % rbdNum + r := by
  have low := Nat.mod_lt g rbdNum_pos
  have rest : line.descs ∣ rbdNum - g % rbdNum :=
    Nat.dvd_sub line.descs_dvd ((Nat.dvd_mod_iff line.descs_dvd).mpr dvd)
  have le := Nat.le_of_dvd (by omega) rest
  rw [Nat.add_mod, Nat.mod_eq_of_lt (show r < rbdNum by omega), Nat.mod_eq_of_lt (by omega)]

/-- The index is that of the last descriptor in a line exactly when the line is done with. -/
lemma index_and (aligned : Aligned line s q) :
    s.rbdIndex &&& (line.descs - 1) = line.descs - 1 ↔ q.taken + 1 = q.freed + line.descs := by
  obtain ⟨dvd, within, index⟩ := aligned
  have le := q.freed_le
  rw [index, Line.descs, Nat.and_two_pow_sub_one_eq_mod, ← Line.descs,
    Nat.mod_mod_of_dvd _ line.descs_dvd]
  have split : q.taken = q.freed + (q.taken - q.freed) := by omega
  rw [split, Nat.add_mod, Nat.mod_eq_zero_of_dvd dvd, Nat.zero_add, Nat.mod_mod,
    Nat.mod_eq_of_lt (by omega)]
  omega

/-! ## Descriptors -/

lemma content_update {bd : Nat → Bd} : (fun j => (Function.update bd i b j).content) =
    Function.update (fun j => (bd j).content) i b.content := by
  funext j
  by_cases ji : j = i
  · rw [ji, Function.update_self, Function.update_self]
  · rw [Function.update_of_ne ji, Function.update_of_ne ji]

/-- A change of a descriptor that leaves its frame. -/
lemma content_update_self {bd : Nat → Bd} (same : b.content = (bd i).content) :
    (fun j => (Function.update bd i b j).content) = fun j => (bd j).content := by
  rw [content_update, same]
  exact Function.update_eq_self i _

/-- The ring stays closed when a descriptor keeps its mark to wrap. -/
lemma wrap_update {bd : Nat → Bd} (wrap : ∀ j < rbdNum, (bd j).wrap = decide (j = rbdNum - 1))
    (same : i < rbdNum → b.wrap = decide (i = rbdNum - 1)) :
    ∀ j < rbdNum, (Function.update bd i b j).wrap = decide (j = rbdNum - 1) := by
  intro j lt
  by_cases ji : j = i
  · subst ji
    rw [Function.update_self]
    exact same lt
  · rw [Function.update_of_ne ji]
    exact wrap j lt

/-- The lengths stay those of the data. -/
lemma length_update {bd : Nat → Bd}
    (length : ∀ j < rbdNum, (bd j).empty = false → (bd j).length = (bd j).data.length)
    (same : b.empty = false → b.length = b.data.length) :
    ∀ j < rbdNum, (Function.update bd i b j).empty = false →
      (Function.update bd i b j).length = (Function.update bd i b j).data.length := by
  intro j lt
  by_cases ji : j = i
  · rw [ji, Function.update_self]
    exact same
  · rw [Function.update_of_ne ji]
    exact length j lt

/-! ## Steps -/

/-- The queue is that of the ring and the history, whatever else changes. -/
lemma Ring.keep {s' : State} (ring : Ring s q) (bd : s'.bd = s.bd) (stored : s'.stored = s.stored)
    (next : s'.next = s.next) (passed : s'.passed = s.passed) (pending : s'.pending = s.pending) :
    Ring s' q where
  here := by rw [bd]; exact ring.here
  stored := ring.stored.trans stored.symm
  next := next.trans ring.next
  passed := passed.trans ring.passed
  wrap := by rw [bd]; exact ring.wrap
  length := by rw [bd]; exact ring.length
  done := by rw [pending]; exact ring.done

/-- The driver moves on without an access to the ring. -/
lemma Ring.setPc (ring : Ring s q) {gts : Bool} {pc : Pc} : Ring { s with gts, pc } q :=
  ring.keep rfl rfl rfl rfl rfl

/-- The ring is that of an empty queue after a restart. -/
lemma start_ring : Ring s.fecInit .empty := by
  have bd : ∀ i, i < rbdNum → s.fecInit.bd i =
      (((s.bd i).init.cleanStatus (decide (i = rbdNum - 1))).cleanLength) := by
    intro i lt
    simp only [State.fecInit, State.fecOpen, State.rbdInit, if_pos lt]
    rfl
  refine ⟨?_, rfl, rfl, rfl, ?_, ?_, ?_⟩
  · apply Queue.In.empty
    intro i lt
    simp only [bd i lt]
    rfl
  · intro i lt
    rw [bd i lt]
    rfl
  · intro i lt full
    rw [bd i lt] at full
    exact absurd full (by simp [Bd.cleanLength, Bd.cleanStatus])
  · intro p low high
    exact absurd high (Nat.not_lt_zero p)

/-- The controller stores a frame. -/
lemma Ring.store (ring : Ring s q) (f : Frame) : s.store f = s ∨
    ∃ room : q.put.length < q.freed + rbdNum, Ring (s.store f) (q.enqueue f room) := by
  rw [State.store]
  by_cases can : s.enabled ∧ (s.bd s.next).empty ∧ f.bytes.length ≤ maxPktSize
  swap
  · rw [if_neg can]
    exact .inl rfl
  rw [if_pos can]
  obtain ⟨-, empty, fits⟩ := can
  obtain ⟨here, stored, next, passed, wrap, length, done⟩ := ring
  have nlt : s.next < rbdNum := by
    rw [next]
    exact Nat.mod_lt _ rbdNum_pos
  have room : q.put.length < q.freed + rbdNum := by
    apply here.room rbdNum_pos
    rw [← next, Bd.content, if_pos empty]
  refine .inr ⟨room, ?_, ?_, ?_, ?_, ?_, ?_, ?_⟩
  · simp only [State.setBd]
    rw [content_update, next]
    exact here.enqueue room
  · exact congrArg (· ++ [f]) stored
  · show _ = (q.put ++ [f]).length % rbdNum
    have close := wrap s.next nlt
    simp only [close, decide_eq_true_eq, List.length_append, List.length_singleton]
    rw [next]
    exact Queue.next_slot rbdNum_pos
  · show s.passed = (((q.put ++ [f]).take q.taken).filter Frame.good).map Frame.payload
    rw [List.take_append_of_le_length q.taken_le]
    exact passed
  · exact wrap_update wrap (wrap s.next)
  · exact length_update length fun _ => rfl
  · intro p low high
    have lt : p < q.put.length := Nat.lt_of_lt_of_le high q.taken_le
    have other : p % rbdNum ≠ s.next := by
      rw [next]
      exact Queue.slot_ne low lt room
    show Function.update s.pending s.next true (p % rbdNum) = false
    rw [Function.update_of_ne other]
    exact done p low high

/-- The driver stays where it is in the queue when a frame is stored. -/
lemma At.store (ring : Ring s q) (here : At line s q) (ok : Ok s (.store f))
    (room : q.put.length < q.freed + rbdNum) : At line (s.store f) (q.enqueue f room) := by
  have pc : (s.store f).pc = s.pc := by
    rw [State.store]
    split <;> rfl
  have index : (s.store f).rbdIndex = s.rbdIndex := by
    rw [State.store]
    split <;> rfl
  have front {x : Frame} (some : q.put[q.taken]? = some x) :
      (q.enqueue f room).put[(q.enqueue f room).taken]? = Option.some x := by
    have lt := (List.getElem?_eq_some_iff.mp some).1
    exact (List.getElem?_append_left lt).trans some
  have aligned (al : Aligned line s q) : Aligned line (s.store f) (q.enqueue f room) :=
    ⟨al.dvd, al.within, index.trans al.index⟩
  have looking {rbd : Nat} {x : Frame} (look : Looking line s q rbd x) :
      Looking line (s.store f) (q.enqueue f room) rbd x :=
    ⟨aligned look.aligned, look.index.trans index.symm, front look.front, look.good⟩
  have cleaning {g r : Nat} (cl : Cleaning line s q g r) :
      Cleaning line (s.store f) (q.enqueue f room) g r :=
    ⟨cl.dvd, cl.lt, cl.taken, index.trans cl.index⟩
  rw [At, pc]
  rw [At] at here
  unfold Ok at ok
  cases at' : s.pc with
  | idle =>
    rw [at'] at here
    exact aligned here
  | events rbd =>
    rw [at'] at here
    exact ⟨aligned here.1, here.2.trans index.symm⟩
  | halt next => trivial
  | init next => trivial
  | status rbd =>
    rw [at'] at here
    exact aligned here
  | length rbd =>
    rw [at'] at here
    obtain ⟨x, look⟩ := here
    exact ⟨x, looking look⟩
  | frameLength rbd =>
    rw [at'] at here
    obtain ⟨x, look, good⟩ := here
    exact ⟨x, looking look, good⟩
  | copy rbd len =>
    rw [at'] at here
    obtain ⟨x, look, good, eq⟩ := here
    exact ⟨x, looking look, good, eq⟩
  | clean i =>
    rw [at'] at here
    obtain ⟨g, r, cl, freed, eq⟩ := here
    exact ⟨g, r, cleaning cl, freed, eq⟩
  | cleanLength i =>
    rw [at'] at here ok
    obtain ⟨g, r, cl, freed, eq, lt⟩ := here
    refine ⟨g, r, cleaning cl, freed, eq, ?_⟩
    -- the slot that is being given back is the one the next frame would fill in this turn
    show (q.put ++ [f]).length < q.freed + rbdNum
    rw [List.length_append, List.length_singleton]
    have slot : s.next = q.put.length % rbdNum := ring.next
    have place := slot_add cl.dvd cl.lt
    have ne : s.next ≠ i := ok
    rw [slot, eq, ← place] at ne
    by_contra full
    apply ne
    rw [show q.put.length = g + r + rbdNum by omega, Nat.add_mod_right]
  | advance =>
    rw [at'] at here
    obtain ⟨dvd, within, pos, eq⟩ := here
    exact ⟨dvd, within, pos, index.trans eq⟩

/-- The descriptor in front has the frame in front, if there is one. -/
lemma Ring.front (ring : Ring s q) (al : Aligned line s q) :
    (s.bd s.rbdIndex).content = q.put[q.taken]? := by
  have le := Nat.le_of_dvd rbdNum_pos line.descs_dvd
  have within := al.within
  rw [al.index]
  exact ring.here.front (by omega)

/-- A descriptor with a frame. -/
lemma Bd.content_eq (full : b.empty = false) : b.content = some ⟨b.data, b.last, b.err⟩ := by
  rw [Bd.content, if_neg (by rw [full]; exact Bool.false_ne_true)]

lemma Bd.of_content (has : b.content = some f) :
    b.empty = false ∧ b.data = f.bytes ∧ b.last = f.last ∧ b.err = f.err := by
  rw [Bd.content] at has
  split at has
  case isTrue => cases has
  case isFalse full =>
    cases has
    exact ⟨Bool.eq_false_of_not_eq_true full, rfl, rfl, rfl⟩

/-- What the driver looks at in its descriptor. -/
lemma Looking.bd (ring : Ring s q) (look : Looking line s q rbd f) :
    (s.bd rbd).data = f.bytes ∧ (s.bd rbd).length = f.bytes.length := by
  have has := (ring.front look.aligned).trans look.front
  rw [← look.index] at has
  obtain ⟨full, data, -, -⟩ := Bd.of_content has
  have lt : rbd < rbdNum := by
    rw [look.index, look.aligned.index]
    exact Nat.mod_lt _ rbdNum_pos
  exact ⟨data, (ring.length rbd lt full).trans (congrArg List.length data)⟩

/-- The frame in front is done with: it was passed up if it is good. -/
lemma Ring.handled (ring : Ring s q) (al : Aligned line s q) (front : q.put[q.taken]? = some f)
    {ps : List (List UInt8)} (up : ps = s.passed ++ if f.good then [f.payload] else []) :
    ({ s with passed := ps }.handled line s.rbdIndex).Inv line := by
  obtain ⟨lt, get⟩ := List.getElem?_eq_some_iff.mp front
  have part := index_and al
  obtain ⟨here, stored, next, passed, wrap, length, done⟩ := ring
  obtain ⟨dvd, within, index⟩ := al
  have le := q.freed_le
  have pos := line.descs_pos
  refine ⟨q.dequeue lt, ⟨here.dequeue lt, stored, next, ?_, wrap, length, ?_⟩, ?_⟩
  · show ps = ((q.put.take (q.taken + 1)).filter Frame.good).map Frame.payload
    rw [List.take_add_one, front, List.filter_append, List.map_append, ← passed, up]
    congr 1
    cases good : f.good with
    | true => simp [good]
    | false => simp [good]
  · intro p low high
    have high : p < q.taken + 1 := high
    show Function.update s.pending s.rbdIndex false (p % rbdNum) = false
    by_cases same : p % rbdNum = s.rbdIndex
    · rw [same, Function.update_self]
    · rw [Function.update_of_ne same]
      apply done p low
      by_contra last
      apply same
      rw [show p = q.taken by omega, index]
  · simp only [State.handled, At]
    by_cases last : s.rbdIndex &&& (line.descs - 1) = line.descs - 1
    · rw [if_pos last]
      have last := part.mp last
      have place := slot_add dvd (show line.descs - 1 < line.descs by omega)
      have here : s.rbdIndex = q.freed % rbdNum + (line.descs - 1) := by
        rw [index, ← place]
        congr 1
        omega
      exact ⟨q.freed, 0, ⟨dvd, pos, last, here⟩, rfl, by omega⟩
    · rw [if_neg last]
      have more := mt part.mpr last
      refine ⟨dvd, ?_, Nat.succ_pos _, ?_⟩
      · show q.taken + 1 < q.freed + line.descs
        omega
      · exact index

/-- A frame that is dropped. -/
lemma Ring.dropped (ring : Ring s q) (al : Aligned line s q) (front : q.put[q.taken]? = some f)
    (bad : f.good = false) : (s.handled line s.rbdIndex).Inv line := by
  have same : s.passed = s.passed ++ if f.good then [f.payload] else [] := by simp [bad]
  exact ring.handled al front same

/-- A descriptor of the line is marked free. -/
lemma Ring.clean (ring : Ring s q) (cl : Cleaning line s q g r) (freed : q.freed = g + r)
    (eq : i = g % rbdNum + r) :
    { s.setBd i ((s.bd i).cleanStatus (decide (i = rbdNum - 1))) with
      pc := Pc.cleanLength i }.Inv line := by
  obtain ⟨here, stored, next, passed, wrap, length, done⟩ := ring
  have place := slot_add cl.dvd cl.lt
  have slot : q.freed % rbdNum = i := by rw [freed, place, eq]
  have more : q.freed < q.taken := by
    have lt := cl.lt
    rw [cl.taken, freed]
    omega
  have le := q.put_le
  refine ⟨q.free more, ⟨?_, stored, next, passed, ?_, ?_, ?_⟩, ?_⟩
  · simp only [State.setBd]
    rw [content_update]
    have freed := here.free more
    rw [slot] at freed
    exact freed
  · exact wrap_update wrap fun _ => rfl
  · exact length_update length fun full => absurd full (by simp [Bd.cleanStatus])
  · intro p low high
    exact done p (Nat.le_of_succ_le low) high
  · refine ⟨g, r, ⟨cl.dvd, cl.lt, cl.taken, cl.index⟩, ?_, eq, ?_⟩
    · exact congrArg (· + 1) freed
    · show q.put.length < q.freed + 1 + rbdNum
      omega

/-- Its length is cleared, and the next one of the line follows. -/
lemma Ring.cleanLength (ring : Ring s q) (cl : Cleaning line s q g r) (freed : q.freed = g + r + 1)
    (eq : i = g % rbdNum + r) (room : q.put.length < q.freed + rbdNum) :
    { s.setBd i (s.bd i).cleanLength with
      pc := if i + 1 ≤ s.rbdIndex then Pc.clean (i + 1) else Pc.advance }.Inv line := by
  obtain ⟨here, stored, next, passed, wrap, length, done⟩ := ring
  have place := slot_add cl.dvd cl.lt
  have pos := rbdNum_pos
  -- the descriptor is still empty
  have none : (s.bd i).content = none := by
    have last := here (g + r + rbdNum) (by omega) (by omega)
    rw [Nat.add_mod_right, place, ← eq, List.getElem?_eq_none (by omega)] at last
    exact last
  have empty : (s.bd i).empty = true := by
    by_contra full
    rw [Bd.content_eq (Bool.eq_false_of_not_eq_true full)] at none
    cases none
  refine ⟨q, ⟨?_, stored, next, passed, ?_, ?_, done⟩, ?_⟩
  · simp only [State.setBd]
    rw [content_update_self (by rfl)]
    exact here
  · exact wrap_update wrap (wrap i)
  · exact length_update length fun full => absurd (empty.symm.trans full) (by simp)
  · obtain ⟨dvd, lt, taken, index⟩ := cl
    simp only [At]
    by_cases more : i + 1 ≤ s.rbdIndex
    · rw [if_pos more]
      exact ⟨g, r + 1, ⟨dvd, by omega, taken, index⟩, freed, by omega⟩
    · rw [if_neg more]
      have whole : q.freed = g + line.descs := by omega
      refine ⟨?_, by omega, by omega, ?_⟩
      · rw [whole]
        exact Nat.dvd_add dvd (Nat.dvd_refl _)
      · show s.rbdIndex = (q.taken - 1) % rbdNum
        rw [index, taken, show g + line.descs - 1 = g + (line.descs - 1) by omega]
        exact (slot_add dvd (by omega)).symm

/-- After a restart the queue is empty. -/
lemma inv_restart {next : Next} : ({ s.fecInit with pc := next.pc } : State).Inv line := by
  have ring : Ring ({ s.fecInit with pc := next.pc } : State) .empty :=
    start_ring.keep rfl rfl rfl rfl rfl
  have al : Aligned line ({ s.fecInit with pc := next.pc } : State) .empty := by
    refine ⟨Nat.dvd_zero _, ?_, rfl⟩
    show 0 < 0 + line.descs
    rw [Nat.zero_add]
    exact line.descs_pos
  refine ⟨.empty, ring, ?_⟩
  cases next with
  | idle => exact al
  | status rbd => exact al

/-- The driver makes its next access. -/
lemma State.Inv.go (inv : s.Inv line) (ok : Ok s .go) : (s.go line).Inv line := by
  obtain ⟨q, ring, whole⟩ := inv
  have here := whole
  rw [At] at here
  unfold Ok at ok
  rw [State.go]
  cases pc : s.pc with
  | idle => exact ⟨q, ring, whole⟩
  | events rbd => exact ⟨q, ring, whole⟩
  | halt next => exact ⟨q, ring.keep rfl rfl rfl rfl rfl, trivial⟩
  | init next => exact inv_restart
  | status rbd =>
    rw [pc] at here ok
    have al : Aligned line s q := here
    have chosen : rbd = s.rbdIndex ∨ (s.bd rbd).empty = true := ok
    by_cases empty : (s.bd rbd).empty = true
    · simp only
      rw [if_pos empty]
      exact ⟨q, ring.setPc, ⟨al.dvd, al.within, al.index⟩⟩
    · obtain rfl := chosen.resolve_right empty
      have has := ring.front al
      rw [Bd.content_eq (Bool.eq_false_of_not_eq_true empty)] at has
      simp only
      rw [if_neg empty]
      by_cases good : (s.bd s.rbdIndex).last = true ∧ ¬ (s.bd s.rbdIndex).err = true
      · rw [if_pos good]
        have good' : (s.bd s.rbdIndex).last = true ∧ (s.bd s.rbdIndex).err = false :=
          ⟨good.1, Bool.eq_false_of_not_eq_true good.2⟩
        exact ⟨q, ring.setPc, _, ⟨⟨al.dvd, al.within, al.index⟩, rfl, has.symm, good'⟩⟩
      · rw [if_neg good]
        refine ring.dropped al has.symm ?_
        rw [Frame.good]
        cases last : (s.bd s.rbdIndex).last with
        | false => rfl
        | true =>
          cases err : (s.bd s.rbdIndex).err with
          | true => rfl
          | false => exact absurd ⟨last, by simp [err]⟩ good
  | length rbd =>
    rw [pc] at here
    obtain ⟨f, look⟩ := here
    obtain ⟨data, len⟩ := look.bd ring
    have good : f.good = decide (14 < (f.bytes.length : Int) - 4) := by
      rw [Frame.good, look.good.1, look.good.2]
      rfl
    simp only [len]
    by_cases long : (f.bytes.length : Int) - 4 > 14
    · rw [if_pos long]
      obtain ⟨al, index, front, flags⟩ := look
      refine ⟨q, ring.setPc, f, ⟨⟨al.dvd, al.within, al.index⟩, index, front, flags⟩, ?_⟩
      rw [good]
      exact decide_eq_true long
    · rw [if_neg long, look.index]
      refine ring.dropped look.aligned look.front ?_
      rw [good]
      exact decide_eq_false long
  | frameLength rbd =>
    rw [pc] at here
    obtain ⟨f, look, good⟩ := here
    obtain ⟨data, len⟩ := look.bd ring
    obtain ⟨al, index, front, flags⟩ := look
    refine ⟨q, ring.setPc, f, ⟨⟨al.dvd, al.within, al.index⟩, index, front, flags⟩, good, ?_⟩
    rw [len]
  | copy rbd len =>
    rw [pc] at here
    obtain ⟨f, look, good, rfl⟩ := here
    have data := (look.bd ring).1
    simp only
    rw [look.index] at data ⊢
    refine ring.handled look.aligned look.front ?_
    rw [if_pos good, data]
    rfl
  | clean i =>
    rw [pc] at here
    obtain ⟨g, r, cl, freed, eq⟩ := here
    exact ring.clean cl freed eq
  | cleanLength i =>
    rw [pc] at here
    obtain ⟨g, r, cl, freed, eq, room⟩ := here
    exact ring.cleanLength cl freed eq room
  | advance =>
    rw [pc] at here
    obtain ⟨dvd, within, pos, index⟩ := here
    refine ⟨q, ring.keep rfl rfl rfl rfl rfl, dvd, within, ?_⟩
    show (s.rbdIndex + 1) % rbdNum = q.taken % rbdNum
    rw [index, Nat.mod_add_mod, Nat.sub_add_cancel pos]

/-- Every step that is admitted keeps the invariant. -/
lemma State.Inv.step (inv : s.Inv line) (ok : Ok s a) : (step line s a).Inv line := by
  cases a with
  | recv =>
    obtain ⟨q, ring, here⟩ := inv
    simp only [Fec.step]
    split
    case h_1 pc =>
      rw [At, pc] at here
      obtain ⟨dvd, within, index⟩ := here
      exact ⟨q, ring.setPc, ⟨dvd, within, index⟩, rfl⟩
    case h_2 => exact ⟨q, ring, here⟩
  | restart =>
    obtain ⟨q, ring, here⟩ := inv
    simp only [Fec.step]
    split
    case h_1 => exact ⟨q, ring.setPc, trivial⟩
    case h_2 => exact ⟨q, ring, here⟩
  | events babr hberr gra =>
    obtain ⟨q, ring, here⟩ := inv
    simp only [Fec.step]
    split
    case h_1 rbd pc =>
      rw [At, pc] at here
      obtain ⟨⟨dvd, within, index⟩, -⟩ := here
      rw [State.readEvents]
      split
      · exact ⟨q, ring.setPc, trivial⟩
      · simp only
        split
        · exact ⟨q, ring.setPc, trivial⟩
        · exact ⟨q, ring.setPc, ⟨dvd, within, index⟩⟩
    case h_2 => exact ⟨q, ring, here⟩
  | go => exact inv.go ok
  | store f =>
    obtain ⟨q, ring, here⟩ := inv
    show (s.store f).Inv line
    obtain same | ⟨room, ring'⟩ := ring.store f
    · rw [same]
      exact ⟨q, ring, here⟩
    · exact ⟨_, ring', here.store ring ok room⟩

/-- What the invariant says about the frames. -/
lemma State.Inv.delivers (inv : s.Inv line) : Delivers s := by
  obtain ⟨q, ring, -⟩ := inv
  refine ⟨?_, ?_⟩
  · rw [ring.passed, ← ring.stored]
    exact ((List.take_prefix q.taken q.put).filter _).map _
  · intro i lt
    rw [ring.wrap i lt, decide_eq_true_eq]

/-- Only `fec_rbd_clean` marks a descriptor with a frame empty, and the frame was done with. -/
lemma State.Inv.keeps (inv : s.Inv line) : KeepsFrames line s a := by
  obtain ⟨q, ring, here⟩ := inv
  intro i lt full empty
  have kept {s' : State} (same : s'.bd = s.bd) : (s'.bd i).empty ≠ true := by
    rw [same, full]
    exact Bool.false_ne_true
  have handled {s' : State} {rbd : Nat} (same : s'.bd = s.bd) :
      ((s'.handled line rbd).bd i).empty ≠ true := kept same
  cases a with
  | recv =>
    simp only [Fec.step] at empty
    split at empty
    · exact absurd empty (kept rfl)
    · exact absurd empty (kept rfl)
  | restart =>
    simp only [Fec.step] at empty
    split at empty
    · exact absurd empty (kept rfl)
    · exact absurd empty (kept rfl)
  | events babr hberr gra =>
    simp only [Fec.step] at empty
    split at empty
    · rw [State.readEvents] at empty
      split at empty
      · exact absurd empty (kept rfl)
      · simp only at empty
        split at empty
        · exact absurd empty (kept rfl)
        · exact absurd empty (kept rfl)
    · exact absurd empty (kept rfl)
  | store f =>
    simp only [Fec.step, State.store] at empty
    split at empty
    · simp only [State.setBd] at empty
      by_cases same : i = s.next
      · rw [same, Function.update_self] at empty
        cases empty
      · rw [Function.update_of_ne same, full] at empty
        cases empty
    · exact absurd empty (kept rfl)
  | go =>
    simp only [Fec.step, State.go] at empty
    rw [At] at here
    cases pc : s.pc with
    | init next => exact .inr ⟨rfl, next, rfl⟩
    | clean j =>
      rw [pc] at empty here
      obtain ⟨g, r, cl, freed, eq⟩ := here
      have place := slot_add cl.dvd cl.lt
      have lt := cl.lt
      simp only [State.setBd] at empty
      by_cases same : i = j
      · have done := ring.done (g + r) (by omega) (by have := cl.taken; omega)
        rw [place, ← eq, ← same] at done
        exact .inl done
      · rw [Function.update_of_ne same, full] at empty
        cases empty
    | cleanLength j =>
      rw [pc] at empty
      simp only [State.setBd] at empty
      by_cases same : i = j
      · rw [same, Function.update_self] at empty
        rw [same] at full
        exact absurd (full.symm.trans empty) (by simp)
      · rw [Function.update_of_ne same, full] at empty
        cases empty
    | status rbd =>
      rw [pc] at empty
      simp only at empty
      split at empty
      · exact absurd empty (kept rfl)
      · split at empty
        · exact absurd empty (kept rfl)
        · exact absurd empty (handled rfl)
    | length rbd =>
      rw [pc] at empty
      simp only at empty
      split at empty
      · exact absurd empty (kept rfl)
      · exact absurd empty (handled rfl)
    | _ =>
      rw [pc] at empty
      exact absurd empty (kept rfl)

/-! ## Runs -/

/-- Every run of the driver and the controller in which the chosen descriptor is not filled again
by a restart, and no frame comes between the mark of a descriptor and its length, delivers the
frames in order, each once, and gives no descriptor back too early. -/
theorem run_delivers {as : List Action} (run : Along Ok (step line) s.start as) :
    Along (Safe line) (step line) s.start as := by
  have inv : s.start.Inv line := @inv_restart line s .idle
  refine run.guarantee (P := State.Inv line) inv ?_
  intro s a inv ok
  have next := inv.step ok
  exact ⟨⟨inv.delivers, inv.keeps, next.delivers⟩, next⟩

/-- A controller that was never enabled, and a ring without anything in it. -/
def cold : State where
  bd := fun _ => ⟨false, false, false, false, 0, []⟩
  rbdIndex := 0
  gts := false
  pc := .idle
  enabled := false
  next := 0
  stored := []
  passed := []
  pending := fun _ => false

/-- A good frame of 23 bytes, and one with an error. -/
def goodFrame (b : UInt8) : Frame := ⟨List.replicate 23 b, true, false⟩
def badFrame : Frame := ⟨List.replicate 23 0, true, true⟩

/-- A call of `fec_recv` without events that passes a frame up. -/
def pull : List Action :=
  [.recv, .events false false false, .go, .go, .go, .go, .go]

/-- A good frame and one with an error that is stored while the first is received. -/
theorem run_delivers_two : Along (Safe ⟨2, by decide⟩) (step ⟨2, by decide⟩) cold.start
    ([Action.store (goodFrame 1), .recv, .store badFrame, .events false false false] ++
      List.replicate 5 Action.go ++ pull) :=
  run_delivers (by decide)

/-- One frame is received; in the next call a heartbeat error and a graceful stop restart the
controller, which stores two frames before the status is read. -/
def restartRun : List Action :=
  Action.store (goodFrame 1) :: pull ++ [Action.recv, .events false true true, .go, .go,
    .store (goodFrame 2), .store (goodFrame 3), .go, .go, .go]

/-- The second of them is passed up first. -/
theorem not_run_delivers_restart : ¬ Along (Safe ⟨2, by decide⟩) (step ⟨2, by decide⟩) cold.start
    (restartRun ++ [Action.go]) := by
  intro run
  obtain ⟨-, last, -⟩ := Along.append.mp run
  have order := last.after.inOrder
  revert order
  decide

end Imx.Fec
