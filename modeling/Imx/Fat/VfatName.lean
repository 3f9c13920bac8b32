import Imx.Fat.Entry
import Imx.Fat.Slots

/-!
# Slots in memory

Where the slots of a name lie in front of its entry, in one cluster or at the end of one and the
start of the next, `get_vfatname` gives the name and the entry, if there are no more slots than
`VFAT_MAXSEQ`.
-/

namespace Imx.Fat
open Imx.Base

variable {m disk cluster block : Mem} {d : Fsdata} {dma i j k n c counter limit curclust : Nat}
  {checksum : UInt8} {s : DirSlot} {name : List UInt8} {ss as bs : List DirSlot}

/-- The fields of a slot have their lengths. -/
structure DirSlot.Whole (s : DirSlot) : Prop where
  name0_4 : s.name0_4.length = 10
  name5_10 : s.name5_10.length = 12
  name11_12 : s.name11_12.length = 4

lemma DirSlot.Whole.length (whole : s.Whole) : s.bytes.length = 32 := by
  simp only [DirSlot.bytes, List.length_cons, List.length_append, List.length_nil, whole.name0_4,
    whole.name5_10, whole.name11_12]

lemma str2slot_whole {id : UInt8} : (slotOf (str2slot name).1 id checksum).Whole := by
  have len (k : Nat) (name : List UInt8) : (putChars k name).1.length = 2 * k := length_putChars
  unfold str2slot
  rcases first : putChars 5 name with ⟨a, _ | name'⟩
  all_goals
    have one := len 5 name
    rw [first] at one
  · exact ⟨one, rfl, rfl⟩
  dsimp only
  rcases second : putChars 6 name' with ⟨b, _ | name''⟩
  all_goals
    have two := len 6 name'
    rw [second] at two
  · exact ⟨one, two, rfl⟩
  dsimp only
  rcases third : putChars 2 name'' with ⟨c, _ | name'''⟩
  all_goals
    have three := len 2 name''
    rw [third] at three
  · exact ⟨one, two, three⟩
  · exact ⟨one, two, three⟩

lemma slotsFrom_whole : ∀ s ∈ slotsFrom checksum counter name, s.Whole := by
  induction length : name.length using Nat.strong_induction_on generalizing counter name with
  | h length ih =>
    subst length
    rw [slotsFrom]
    split
    case h_1 =>
      intro s mem
      rw [List.mem_singleton] at mem
      subst mem
      exact str2slot_whole
    case h_2 rest h =>
      intro s mem
      obtain rfl | mem := List.mem_cons.mp mem
      · exact str2slot_whole
      · have less := str2slot_rest h
        exact ih _ (by omega) rfl s mem

/-- A slot that was stored is found. -/
lemma DirSlot.get_eq {a : Nat} (whole : s.Whole) (read : m.read a 32 = s.bytes) :
    DirSlot.get m a = s := by
  obtain ⟨one, two, three⟩ := whole
  have part (o k : Nat) (le : o + k ≤ 32) : m.read (a + o) k = (s.bytes.drop o).take k := by
    rw [← read, Mem.read_drop, Mem.read_take, Nat.min_eq_left (by omega)]
  have byte (o : Nat) (lt : o < 32) : some (m (a + o)) = s.bytes[o]? := by
    rw [← read, Mem.getElem?_read, if_pos lt]
  have attr : some (m (a + 11)) = some s.attr := by
    rw [byte 11 (by decide), DirSlot.bytes, List.getElem?_cons_succ,
      List.getElem?_append_right (by omega), one]
    rfl
  have sum : some (m (a + 13)) = some s.aliasChecksum := by
    rw [byte 13 (by decide), DirSlot.bytes, List.getElem?_cons_succ,
      List.getElem?_append_right (by omega), one]
    rfl
  have first : m.read (a + 1) 10 = s.name0_4 := by
    rw [part 1 10 (by decide), DirSlot.bytes, List.drop_succ_cons, List.drop_zero, ← one,
      List.take_left']
    rfl
  have second : m.read (a + 14) 12 = s.name5_10 := by
    have split : s.bytes = (s.id :: (s.name0_4 ++ [s.attr, 0, s.aliasChecksum])) ++
        (s.name5_10 ++ ([0, 0] ++ s.name11_12)) := by
      simp only [DirSlot.bytes, List.cons_append, List.append_assoc]
    rw [part 14 12 (by decide), split, List.drop_left', List.take_left' two]
    rw [List.length_cons, List.length_append, one]
    rfl
  have third : m.read (a + 28) 4 = s.name11_12 := by
    have split : s.bytes = (s.id :: (s.name0_4 ++ ([s.attr, 0, s.aliasChecksum] ++
        (s.name5_10 ++ [0, 0])))) ++ s.name11_12 := by
      simp only [DirSlot.bytes, List.cons_append, List.append_assoc]
    rw [part 28 4 (by decide), split, List.drop_left',
      List.take_of_length_le (Nat.le_of_eq three)]
    simp only [List.length_cons, List.length_append, one, two, List.length_nil]
  have id : m a = s.id := by
    have eq := byte 0 (by decide)
    rw [Nat.add_zero] at eq
    exact Option.some.inj eq
  simp only [DirSlot.get, id, first, Option.some.inj attr, Option.some.inj sum, second, third]

/-! ## Slots in front of an entry -/

/-- Slots lie in front of an entry, the first one next to it. -/
def Down (m : Mem) : Nat → List DirSlot → Prop
  | _, [] => True
  | i, s :: ss => 0 < i ∧ DirSlot.get m (32 * (i - 1)) = s ∧ Down m (i - 1) ss

lemma down_cons : Down m (i + 1) (s :: ss) ↔ DirSlot.get m (32 * i) = s ∧ Down m i ss :=
  and_iff_right (Nat.succ_pos i)

/-- Slots that were stored one after another, the first one last. -/
lemma down_of_read (whole : ∀ s ∈ ss, s.Whole)
    (read : m.read (32 * i) (32 * ss.length) = ss.reverse.flatMap DirSlot.bytes) :
    Down m (i + ss.length) ss := by
  induction ss with
  | nil => exact trivial
  | cons s ss ih =>
    have len : (ss.reverse.flatMap DirSlot.bytes).length = 32 * ss.length := by
      rw [List.length_flatMap]
      have all : ss.reverse.map (fun s => s.bytes.length) = List.replicate ss.length 32 := by
        refine List.eq_replicate_iff.mpr ⟨by simp, fun x mem => ?_⟩
        obtain ⟨s', mem', rfl⟩ := List.mem_map.mp mem
        exact (whole s' (List.mem_cons_of_mem s (List.mem_reverse.mp mem'))).length
      rw [all, List.sum_replicate_nat, Nat.mul_comm]
    rw [List.length_cons, Nat.mul_succ, Mem.read_add, List.reverse_cons, List.flatMap_append] at read
    obtain ⟨front, back⟩ := List.append_inj read (by rw [Mem.length_read, len])
    rw [List.flatMap_singleton] at back
    rw [show 32 * i + 32 * ss.length = 32 * (i + ss.length) by omega] at back
    exact down_cons.mpr ⟨DirSlot.get_eq (whole s List.mem_cons_self) back,
      ih (fun s' mem => whole s' (List.mem_cons_of_mem s mem)) front⟩

/-! ## Reading them -/

lemma seq_more : ∀ k < 64, (UInt8.ofNat k &&& 0xbf).toNat = k := by decide

lemma seq_last : ∀ k < 64, ((UInt8.ofNat k ||| 0x40) &&& 0xbf).toNat = k := by decide

lemma not_last : ∀ k < 64, UInt8.ofNat k &&& 0x40 = 0 := by decide

lemma is_last : ∀ k < 64, (UInt8.ofNat k ||| 0x40) &&& 0x40 ≠ 0 := by decide

/-- The slots are numbered. -/
lemma Spells.seq (spells : Spells c (as ++ bs) name) (few : c + as.length + bs.length < 64)
    (down : Down m (i + as.length) as) (lt : j < as.length) :
    (DirSlot.get m (32 * (i + j))).seq = c + as.length - j := by
  induction as generalizing c name with
  | nil => exact absurd lt (Nat.not_lt_zero j)
  | cons s as ih =>
    rw [List.length_cons] at lt few ⊢
    rw [List.length_cons, ← Nat.add_assoc] at down
    obtain ⟨here, below⟩ := down_cons.mp down
    rw [List.cons_append] at spells
    generalize eq : as ++ bs = ss at spells
    cases spells with
    | last id chars =>
      obtain ⟨rfl, rfl⟩ := List.append_eq_nil_iff.mp eq
      obtain rfl : j = 0 := Nat.lt_one_iff.mp lt
      have at_ : DirSlot.get m (32 * (i + 0)) = s := here
      rw [DirSlot.seq, at_, id]
      exact seq_last (c + 1) (by omega)
    | more id all len spells =>
      subst eq
      obtain less | rfl := Nat.lt_succ_iff_lt_or_eq.mp lt
      · rw [ih spells (by omega) below less]
        omega
      · rw [DirSlot.seq, here, id, seq_more _ (by omega)]
        omega

/-- The slots are counted, as far as the buffer goes. -/
lemma countSlots_eq (seq : ∀ j < n, (DirSlot.get m (32 * (i + j))).seq = c + n - j)
    (room : 32 * (i + n) ≤ limit) (stop : c = 0 ∨ limit ≤ 32 * (i + n)) :
    countSlots m limit (c + n) i = some (i + n, c) := by
  induction n generalizing i with
  | zero =>
    obtain rfl | past := stop
    · rw [countSlots, Nat.add_zero]
    · rw [Nat.add_zero] at past ⊢
      cases c with
      | zero => rfl
      | succ c => exact if_pos past
  | succ n ih =>
    have first := seq 0 (Nat.succ_pos n)
    rw [Nat.add_zero, Nat.sub_zero] at first
    rw [← Nat.add_assoc] at first
    rw [← Nat.add_assoc, countSlots, if_neg (by omega), if_neg (not_not_intro first)]
    have sum : i + (n + 1) = i + 1 + n := by omega
    rw [sum] at room stop ⊢
    refine ih (fun j lt => ?_) room stop
    rw [Nat.add_assoc, Nat.add_comm 1 j, seq (j + 1) (Nat.succ_lt_succ lt)]
    omega

/-- The characters of all the slots of a name. -/
lemma Spells.lastSlots (spells : Spells c ss name) (few : c + ss.length < 64)
    (down : Down m (i + ss.length) ss) : lastSlots m (i + ss.length) = some name := by
  induction spells with
  | @last c s name id chars =>
    have last : s.id &&& 0x40 ≠ 0 := by
      rw [id]
      exact is_last (c + 1) few
    rw [List.length_singleton, Fat.lastSlots]
    simp only [(down_cons.mp down).1, chars]
    rw [if_pos (.inr last)]
  | @more c s ss chars name id all len spells ih =>
    rw [List.length_cons] at few
    have more : ¬ ((slot2str s).2 ∨ s.id &&& 0x40 ≠ 0) := by
      rw [all, id, not_last _ (by omega)]
      simp
    rw [List.length_cons, ← Nat.add_assoc] at down ⊢
    obtain ⟨here, below⟩ := down_cons.mp down
    rw [Fat.lastSlots]
    simp only [here, if_neg more]
    rw [ih (by omega) below, Option.map_some, all]

/-- The characters of the first slots of a name, and the slots behind them. -/
lemma Spells.split (spells : Spells c (as ++ bs) name) (some : bs ≠ []) :
    ∃ front back, name = front ++ back ∧ Spells (c + as.length) bs back ∧
      (Down m as.length as → gatherSlots m as.length = front) := by
  induction as generalizing c name with
  | nil => exact ⟨[], name, rfl, spells, fun _ => rfl⟩
  | cons s as ih =>
    rw [List.cons_append] at spells
    generalize eq : as ++ bs = ss at spells
    cases spells with
    | last id chars =>
      obtain ⟨-, rfl⟩ := List.append_eq_nil_iff.mp eq
      exact absurd rfl some
    | @more _ _ _ chars name id all len spells =>
      subst eq
      obtain ⟨front, back, rfl, spells, gather⟩ := ih spells
      refine ⟨chars ++ front, back, (List.append_assoc ..).symm, ?_, fun down => ?_⟩
      · rw [List.length_cons, Nat.add_comm as.length, ← Nat.add_assoc]
        exact spells
      · obtain ⟨here, below⟩ := down_cons.mp down
        rw [List.length_cons, gatherSlots, here, all, gather below]

/-! ## Names -/

/-- A name that is found in one cluster. -/
lemma getVfatname_one (spells : Spells 0 ss name) (few : ss.length ≤ vfatMaxseq)
    (down : Down cluster (i + ss.length) ss)
    (room : 32 * (i + ss.length) <
      d.sectSize * (if curclust = 0 then prefetchBlocks else d.clustSize)) :
    getVfatname disk dma d curclust cluster block i =
      some (nameOf name, cluster.read (32 * (i + ss.length)) 32) := by
  unfold vfatMaxseq at few
  have seq : ∀ j < ss.length, (DirSlot.get cluster (32 * (i + j))).seq = 0 + ss.length - j :=
    fun j lt => Spells.seq (by rwa [List.append_nil]) (by simp; omega) down lt
  have pos : 0 < ss.length := by
    cases spells <;> exact Nat.succ_pos _
  have first := seq 0 pos
  rw [Nat.add_zero, Nat.sub_zero] at first
  unfold getVfatname
  dsimp only
  rw [first, if_neg (by unfold vfatMaxseq; omega),
    countSlots_eq seq (Nat.le_of_lt room) (.inl rfl), Option.bind_some]
  dsimp only
  rw [if_neg (Nat.not_le_of_lt room), spells.lastSlots (by omega) down, Option.map_some]

/-- A name that goes on in the next cluster. -/
lemma getVfatname_two {block' : Mem} {next : Nat × Fsdata} (spells : Spells 0 (as ++ bs) name)
    (some_ : bs ≠ []) (few : as.length + bs.length ≤ vfatMaxseq)
    (down : Down cluster (i + bs.length) bs) (chained : curclust ≠ 0)
    (edge : d.sectSize * d.clustSize = 32 * (i + bs.length))
    (entry : getFatent disk d curclust = next) (valid : checkClust next.1 next.2.fatsize = false)
    (read : getCluster disk dma next.2 next.1 block 0 next.2.bytesperclust = block')
    (down' : Down block' as.length as) :
    getVfatname disk dma d curclust cluster block i =
      some (nameOf name, block'.read (32 * as.length) 32) := by
  unfold vfatMaxseq at few
  obtain ⟨front, back, eq, spells', gather⟩ := spells.split (m := block') some_
  subst eq
  rw [Nat.zero_add] at spells'
  have seq : ∀ j < bs.length,
      (DirSlot.get cluster (32 * (i + j))).seq = as.length + bs.length - j := fun j lt =>
    Spells.seq (by rwa [List.append_nil]) (by simp; omega) down lt
  have seq' : ∀ j < as.length, (DirSlot.get block' (32 * (0 + j))).seq = 0 + as.length - j :=
    fun j lt => spells.seq (by omega) (by rwa [Nat.zero_add]) lt
  have first := seq 0 (List.length_pos_iff.mpr some_)
  rw [Nat.add_zero, Nat.sub_zero] at first
  have count := countSlots_eq seq (Nat.le_of_eq edge.symm) (.inr (Nat.le_of_eq edge))
  have room : 32 * (0 + as.length) ≤ maxClustsize := by
    unfold maxClustsize
    omega
  have count' := countSlots_eq seq' room (.inl rfl)
  rw [Nat.zero_add] at count'
  unfold getVfatname
  dsimp only
  rw [first, if_neg (by unfold vfatMaxseq; omega), if_neg chained, count, Option.bind_some]
  dsimp only
  rw [if_pos (Nat.le_of_eq edge), if_neg chained, entry, if_neg (by rw [valid]; decide), read,
    count', Option.bind_some, spells'.lastSlots (by omega) down, Option.map_some, gather down']

end Imx.Fat
