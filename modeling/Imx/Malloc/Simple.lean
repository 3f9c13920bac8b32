import Imx.Base.Align
import Imx.Base.Run

/-!
# The early heap

Model of `common/malloc_simple.c`, with words of `w` bits: a mark that moves up through a stretch of
memory. The sum that moves it is computed in words. A call whose sum wraps can be taken for one that
fits, and then the block is outside; a block that is handed out at address 0 cannot be told from an
error. `Meets` is a call that does neither, and the blocks of a run are sound exactly if all of its
calls meet it.
-/

namespace Imx.Malloc
open Imx.Base

/-- The fields of `gd` of the early heap. -/
structure Gd (w : Nat) where
  mallocBase : BitVec w
  mallocLimit : BitVec w
  mallocPtr : BitVec w
deriving DecidableEq

/-- The size of an `unsigned long`. -/
def sizeofUlong (w : Nat) : BitVec w := BitVec.ofNat w (w / 8)

variable {w : Nat}

/-- The pointer is 0 for an error. -/
def mallocSimple (gd : Gd w) (bytes : BitVec w) : BitVec w × Gd w :=
  let newPtr := gd.mallocPtr + bytes
  if gd.mallocLimit < newPtr then (0, gd)
  else
    let ptr := gd.mallocBase + gd.mallocPtr
    (ptr, { gd with mallocPtr := alignWord newPtr (sizeofUlong w) })

def memalignSimple (gd : Gd w) (align bytes : BitVec w) : BitVec w × Gd w :=
  let addr := alignWord (gd.mallocBase + gd.mallocPtr) align
  let newPtr := addr + bytes - gd.mallocBase
  if gd.mallocLimit < newPtr then (0, gd)
  else (addr, { gd with mallocPtr := alignWord newPtr (sizeofUlong w) })

/-- A request. The alignment is the `k`-th power of two. -/
inductive Call (w : Nat) where
  | malloc (bytes : BitVec w)
  | memalign (k : Fin w) (bytes : BitVec w)

def Call.bytes : Call w → BitVec w
  | .malloc bytes => bytes
  | .memalign _ bytes => bytes

def Call.run (gd : Gd w) : Call w → BitVec w × Gd w
  | .malloc bytes => mallocSimple gd bytes
  | .memalign k bytes => memalignSimple gd (BitVec.ofNat w (2 ^ k.1)) bytes

/-- A call with what it returned and the heap before and after it. -/
structure Entry (w : Nat) where
  before : Gd w
  call : Call w
  ptr : BitVec w
  after : Gd w

def run : Gd w → List (Call w) → List (Entry w)
  | _, [] => []
  | gd, c :: cs => ⟨gd, c, (c.run gd).1, (c.run gd).2⟩ :: run (c.run gd).2 cs

/-- Where the block ends. -/
def Entry.stop (e : Entry w) : Nat := e.ptr.toNat + e.call.bytes.toNat

/-- Two blocks, if both are there, have no byte in common. -/
def Apart (e f : Entry w) : Prop :=
  e.ptr = 0 ∨ f.ptr = 0 ∨ e.stop ≤ f.ptr.toNat ∨ f.stop ≤ e.ptr.toNat

/-- A call does right on its own. -/
structure Entry.Right (base limit : BitVec w) (e : Entry w) : Prop where
  inside : e.ptr ≠ 0 → base.toNat ≤ e.ptr.toNat ∧ e.stop ≤ base.toNat + limit.toNat
  aligned : ∀ k bytes, e.call = .memalign k bytes → 2 ^ k.1 ∣ e.ptr.toNat
  unchanged : e.ptr = 0 → e.after = e.before

/-- The heap hands out neither memory that is in use nor memory that is not its own. -/
structure Sound (base limit : BitVec w) (es : List (Entry w)) : Prop where
  apart : es.Pairwise Apart
  right : ∀ e ∈ es, e.Right base limit

instance (e f : Entry w) : Decidable (Apart e f) :=
  inferInstanceAs (Decidable (_ ∨ _))

/-- An error that leaves the heap as it was. -/
lemma Entry.right_of_null {base limit : BitVec w} {e : Entry w} (null : e.ptr = 0)
    (same : e.after = e.before) : e.Right base limit where
  inside there := (there null).elim
  aligned k bytes _ := by
    rw [null]
    exact Nat.dvd_zero _
  unchanged _ := same

/-! ## One call -/

/-- The address that is meant to be handed out, as a number. -/
def Call.start (gd : Gd w) : Call w → Nat
  | .malloc _ => gd.mallocBase.toNat + gd.mallocPtr.toNat
  | .memalign k _ => roundUp (gd.mallocBase.toNat + gd.mallocPtr.toNat) (2 ^ k.1)

/-- How far into the heap the block is meant to reach. -/
def Call.reach (gd : Gd w) (c : Call w) : Nat :=
  c.start gd - gd.mallocBase.toNat + c.bytes.toNat

/-- The sum does not wrap back into the heap, and the block is not handed out at address 0. -/
def Meets (gd : Gd w) (c : Call w) : Prop :=
  if c.start gd % 2 ^ w = 0 then
    c.reach gd % 2 ^ w ≤ gd.mallocLimit.toNat →
      roundUp (c.reach gd % 2 ^ w) (w / 8) = gd.mallocPtr.toNat
  else ¬ (2 ^ w ≤ c.reach gd ∧ c.reach gd ≤ 2 ^ w + gd.mallocLimit.toNat)

instance (gd : Gd w) (c : Call w) : Decidable (Meets gd c) :=
  inferInstanceAs (Decidable (ite _ _ _))

/-- The mark is in the heap, which ends at the end of a word and of the memory at the latest. -/
structure Gd.Ok (gd : Gd w) : Prop where
  ptr_le : gd.mallocPtr.toNat ≤ gd.mallocLimit.toNat
  room : gd.mallocBase.toNat + gd.mallocLimit.toNat ≤ 2 ^ w
  aligned : w / 8 ∣ gd.mallocLimit.toNat

variable {gd : Gd w} {c : Call w} {j : Nat}

lemma Call.le_start : gd.mallocBase.toNat + gd.mallocPtr.toNat ≤ c.start gd := by
  cases c with
  | malloc bytes => exact Nat.le_refl _
  | memalign k bytes => exact le_roundUp (Nat.two_pow_pos k.1)

lemma Call.start_le (ok : gd.Ok) : c.start gd ≤ 2 ^ w := by
  have le : gd.mallocBase.toNat + gd.mallocPtr.toNat ≤ 2 ^ w :=
    Nat.le_trans (Nat.add_le_add_left ok.ptr_le _) ok.room
  cases c with
  | malloc bytes => exact le
  | memalign k bytes =>
    exact roundUp_le_of_dvd (Nat.two_pow_pos k.1)
      (Nat.pow_dvd_pow 2 (Nat.le_of_lt k.isLt)) le

/-- A number that is taken for NULL. -/
lemma ofNat_eq_zero {x : Nat} : BitVec.ofNat w x = 0 ↔ x % 2 ^ w = 0 := by
  constructor
  · intro zero
    have same := congrArg BitVec.toNat zero
    rw [BitVec.toNat_ofNat] at same
    exact same.trans (Nat.zero_mod _)
  · intro null
    refine BitVec.eq_of_toNat_eq ?_
    rw [BitVec.toNat_ofNat, null]
    exact (Nat.zero_mod _).symm

/-- What a call does, with the sums as numbers. -/
lemma Call.run_eq (word : w = 8 * 2 ^ j) (c : Call w) :
    c.run gd =
      if gd.mallocLimit.toNat < c.reach gd % 2 ^ w then (0, gd)
      else (BitVec.ofNat w (c.start gd),
        { gd with mallocPtr := BitVec.ofNat w (roundUp (c.reach gd % 2 ^ w) (w / 8)) }) := by
  have size : w / 8 = 2 ^ j := by
    rw [word, Nat.mul_div_cancel_left _ (by decide)]
  have j_lt : j < w := by
    have lt := @Nat.lt_two_pow_self j
    omega
  -- both functions move the mark to the sum in words
  have moved (newPtr : BitVec w) (eq : newPtr.toNat = c.reach gd % 2 ^ w) :
      alignWord newPtr (sizeofUlong w) =
        BitVec.ofNat w (roundUp (c.reach gd % 2 ^ w) (w / 8)) := by
    have self : newPtr = BitVec.ofNat w (c.reach gd % 2 ^ w) := by
      rw [← eq, BitVec.ofNat_toNat, BitVec.setWidth_eq]
    rw [self, sizeofUlong, size]
    exact alignWord_ofNat j_lt _
  have base_self : gd.mallocBase + gd.mallocPtr =
      BitVec.ofNat w (gd.mallocBase.toNat + gd.mallocPtr.toNat) := by
    rw [BitVec.ofNat_add, BitVec.ofNat_toNat, BitVec.ofNat_toNat, BitVec.setWidth_eq,
      BitVec.setWidth_eq]
  cases c with
  | malloc bytes =>
    have sum : (gd.mallocPtr + bytes).toNat = (Call.malloc bytes).reach gd % 2 ^ w := by
      rw [BitVec.toNat_add, Call.reach, Call.start, Nat.add_sub_cancel_left]
      rfl
    rw [Call.run, mallocSimple, moved _ sum, base_self]
    simp only [BitVec.lt_def, sum]
    rfl
  | memalign k bytes =>
    have addr : alignWord (gd.mallocBase + gd.mallocPtr) (BitVec.ofNat w (2 ^ k.1)) =
        BitVec.ofNat w ((Call.memalign k bytes).start gd) := by
      rw [base_self]
      exact alignWord_ofNat k.isLt _
    have sum : (BitVec.ofNat w ((Call.memalign k bytes).start gd) + bytes - gd.mallocBase).toNat =
        (Call.memalign k bytes).reach gd % 2 ^ w := by
      have le := @Call.le_start w gd (.memalign k bytes)
      have split : (Call.memalign k bytes).start gd =
          (Call.memalign k bytes).start gd - gd.mallocBase.toNat + gd.mallocBase.toNat := by
        omega
      have cancel : BitVec.ofNat w ((Call.memalign k bytes).start gd) + bytes - gd.mallocBase =
          BitVec.ofNat w ((Call.memalign k bytes).start gd - gd.mallocBase.toNat) + bytes := by
        rw [split, BitVec.ofNat_add, BitVec.ofNat_toNat, BitVec.setWidth_eq, Nat.add_sub_cancel]
        rw [BitVec.add_assoc, BitVec.add_comm gd.mallocBase, ← BitVec.add_assoc,
          BitVec.add_sub_cancel]
      rw [cancel, BitVec.toNat_add, BitVec.toNat_ofNat, Nat.mod_add_mod, Call.reach]
      rfl
    rw [Call.run, memalignSimple, addr, moved _ sum]
    simp only [BitVec.lt_def, sum]

/-- What a call is recorded as. -/
def Call.entry (gd : Gd w) (c : Call w) : Entry w := ⟨gd, c, (c.run gd).1, (c.run gd).2⟩

/-- The new mark, if it is in the heap, is rounded up to a word that is. -/
lemma Gd.Ok.mark_le (ok : gd.Ok) {n : Nat} (pos : 0 < w / 8) (le : n ≤ gd.mallocLimit.toNat) :
    roundUp n (w / 8) ≤ gd.mallocLimit.toNat :=
  roundUp_le_of_dvd pos ok.aligned le

lemma Gd.Ok.mark_eq (ok : gd.Ok) {n : Nat} (pos : 0 < w / 8) (le : n ≤ gd.mallocLimit.toNat) :
    (BitVec.ofNat w (roundUp n (w / 8))).toNat = roundUp n (w / 8) :=
  Nat.mod_eq_of_lt (Nat.lt_of_le_of_lt (ok.mark_le pos le) gd.mallocLimit.isLt)

lemma word_pos (word : w = 8 * 2 ^ j) : 0 < w / 8 := by
  rw [word, Nat.mul_div_cancel_left _ (by decide)]
  exact Nat.two_pow_pos j

/-- Every call leaves the mark in the heap. -/
lemma Gd.Ok.run (ok : gd.Ok) (word : w = 8 * 2 ^ j) (c : Call w) : (c.run gd).2.Ok := by
  rw [c.run_eq word]
  by_cases refused : gd.mallocLimit.toNat < c.reach gd % 2 ^ w
  case pos =>
    rw [if_pos refused]
    exact ok
  case neg =>
    have le := Nat.le_of_not_lt refused
    rw [if_neg refused]
    refine ⟨?_, ok.room, ok.aligned⟩
    rw [ok.mark_eq (word_pos word) le]
    exact ok.mark_le (word_pos word) le

lemma Call.run_heap (word : w = 8 * 2 ^ j) (c : Call w) :
    (c.run gd).2.mallocBase = gd.mallocBase ∧ (c.run gd).2.mallocLimit = gd.mallocLimit := by
  rw [c.run_eq word]
  by_cases refused : gd.mallocLimit.toNat < c.reach gd % 2 ^ w
  case pos =>
    rw [if_pos refused]
    exact ⟨rfl, rfl⟩
  case neg =>
    rw [if_neg refused]
    exact ⟨rfl, rfl⟩

/-- The block lies between the mark and the new one. -/
structure Between (gd gd' : Gd w) (e : Entry w) : Prop where
  start : gd.mallocBase.toNat + gd.mallocPtr.toNat ≤ e.ptr.toNat
  stop : e.stop ≤ gd.mallocBase.toNat + gd'.mallocPtr.toNat

/-- A call that meets the condition does right, and its block lies between the two marks. -/
lemma Call.right_of_meets (ok : gd.Ok) (word : w = 8 * 2 ^ j) (meets : Meets gd c) :
    (c.entry gd).Right gd.mallocBase gd.mallocLimit ∧
      ((c.entry gd).ptr ≠ 0 → Between gd (c.run gd).2 (c.entry gd)) ∧
      gd.mallocPtr.toNat ≤ (c.run gd).2.mallocPtr.toNat := by
  have low := @Call.le_start w gd c
  have high := Call.start_le (c := c) ok
  have bytes_lt := c.bytes.isLt
  have pos := word_pos word
  rw [Call.entry, c.run_eq word]
  by_cases refused : gd.mallocLimit.toNat < c.reach gd % 2 ^ w
  case pos =>
    rw [if_pos refused]
    exact ⟨Entry.right_of_null rfl rfl, fun h => (h rfl).elim, Nat.le_refl _⟩
  case neg =>
    have le := Nat.le_of_not_lt refused
    rw [if_neg refused]
    rw [Meets] at meets
    by_cases null : c.start gd % 2 ^ w = 0
    case pos =>
      -- the address is 0, and the mark stays
      rw [if_pos null] at meets
      have zero : BitVec.ofNat w (c.start gd) = 0 := ofNat_eq_zero.2 null
      have stays := meets le
      have same : BitVec.ofNat w (roundUp (c.reach gd % 2 ^ w) (w / 8)) = gd.mallocPtr := by
        rw [stays, BitVec.ofNat_toNat, BitVec.setWidth_eq]
      rw [same, zero]
      exact ⟨Entry.right_of_null rfl rfl, fun h => (h rfl).elim, Nat.le_refl _⟩
    case neg =>
      rw [if_neg null] at meets
      have start_lt : c.start gd < 2 ^ w := by
        refine Nat.lt_of_le_of_ne high fun eq => null ?_
        rw [eq, Nat.mod_self]
      have addr : (BitVec.ofNat w (c.start gd)).toNat = c.start gd := Nat.mod_eq_of_lt start_lt
      have reach : c.reach gd = c.start gd - gd.mallocBase.toNat + c.bytes.toNat := rfl
      -- a sum that wraps and is accepted is just what the condition rules out
      have reach_lt : c.reach gd < 2 ^ w := by
        by_contra wraps
        have ge := Nat.le_of_not_lt wraps
        have less : c.reach gd - 2 ^ w < 2 ^ w := by omega
        rw [Nat.mod_eq_sub_mod ge, Nat.mod_eq_of_lt less] at le
        exact meets ⟨ge, by omega⟩
      rw [Nat.mod_eq_of_lt reach_lt] at le ⊢
      have up : c.reach gd ≤ roundUp (c.reach gd) (w / 8) := le_roundUp pos
      have mark := ok.mark_eq pos le
      have stop : c.start gd + c.bytes.toNat = gd.mallocBase.toNat + c.reach gd := by omega
      have stop' (after : Gd w) : (⟨gd, c, BitVec.ofNat w (c.start gd), after⟩ : Entry w).stop =
          gd.mallocBase.toNat + c.reach gd := by
        rw [Entry.stop, addr, stop]
      refine ⟨⟨fun _ => ⟨?_, ?_⟩, fun k bytes eq => ?_, fun h => ?_⟩, fun _ => ⟨?_, ?_⟩, ?_⟩
      · rw [addr]
        omega
      · rw [stop']
        omega
      · rw [addr, show c = .memalign k bytes from eq]
        exact dvd_roundUp
      · exact (null (ofNat_eq_zero.1 h)).elim
      · rw [addr]
        exact low
      · rw [stop', mark]
        omega
      · rw [mark]
        omega

/-- A call that does not meet it does wrong. -/
lemma Call.meets_of_right (ok : gd.Ok) (word : w = 8 * 2 ^ j)
    (right : (c.entry gd).Right gd.mallocBase gd.mallocLimit) : Meets gd c := by
  have low := @Call.le_start w gd c
  have high := Call.start_le (c := c) ok
  have room := ok.room
  have limit_lt := gd.mallocLimit.isLt
  rw [Call.entry, c.run_eq word] at right
  rw [Meets]
  by_cases null : c.start gd % 2 ^ w = 0
  case pos =>
    rw [if_pos null]
    intro le
    rw [if_neg (Nat.not_lt.2 le)] at right
    have zero : BitVec.ofNat w (c.start gd) = 0 := ofNat_eq_zero.2 null
    have same := congrArg (fun gd => gd.mallocPtr.toNat) (right.unchanged zero)
    dsimp only at same
    rw [← ok.mark_eq (word_pos word) le]
    exact same
  case neg =>
    rw [if_neg null]
    rintro ⟨ge, le⟩
    have start_lt : c.start gd < 2 ^ w := by
      refine Nat.lt_of_le_of_ne high fun eq => null ?_
      rw [eq, Nat.mod_self]
    have addr : (BitVec.ofNat w (c.start gd)).toNat = c.start gd := Nat.mod_eq_of_lt start_lt
    have wrapped : c.reach gd % 2 ^ w = c.reach gd - 2 ^ w := by
      rw [Nat.mod_eq_sub_mod ge, Nat.mod_eq_of_lt (by omega)]
    rw [wrapped, if_neg (by omega)] at right
    have there : BitVec.ofNat w (c.start gd) ≠ 0 := fun zero => null (ofNat_eq_zero.1 zero)
    -- the block is longer than the heap
    have stop := (right.inside there).2
    rw [Entry.stop, addr] at stop
    dsimp only at stop
    have reach : c.reach gd = c.start gd - gd.mallocBase.toNat + c.bytes.toNat := rfl
    omega

/-! ## Runs -/

/-- No block of the run lies below the mark. -/
lemma above_mark (word : w = 8 * 2 ^ j) (cs : List (Call w)) (ok : gd.Ok)
    (along : Along Meets (fun gd c => (c.run gd).2) gd cs) :
    ∀ e ∈ run gd cs, e.ptr ≠ 0 → gd.mallocBase.toNat + gd.mallocPtr.toNat ≤ e.ptr.toNat := by
  induction cs generalizing gd with
  | nil => exact fun e mem => (List.not_mem_nil mem).elim
  | cons c cs ih =>
    obtain ⟨meets, along⟩ := along
    obtain ⟨_, between, le⟩ := Call.right_of_meets ok word meets
    intro e mem there
    rw [run] at mem
    obtain rfl | later := List.mem_cons.1 mem
    · exact (between there).start
    · have above := ih (ok.run word c) along e later there
      rw [(Call.run_heap word c).1] at above
      omega

/-- The blocks are sound if all calls meet the condition. -/
lemma sound_of_along (word : w = 8 * 2 ^ j) (cs : List (Call w)) (ok : gd.Ok)
    (along : Along Meets (fun gd c => (c.run gd).2) gd cs) :
    Sound gd.mallocBase gd.mallocLimit (run gd cs) := by
  induction cs generalizing gd with
  | nil => exact ⟨.nil, fun e mem => (List.not_mem_nil mem).elim⟩
  | cons c cs ih =>
    obtain ⟨meets, along⟩ := along
    obtain ⟨right, between, _⟩ := Call.right_of_meets ok word meets
    obtain ⟨base_eq, limit_eq⟩ := @Call.run_heap w gd j word c
    have tail := ih (ok.run word c) along
    have above := above_mark word cs (ok.run word c) along
    rw [base_eq, limit_eq] at tail
    rw [base_eq] at above
    refine ⟨.cons (fun f mem => ?_) tail.apart, fun e mem => ?_⟩
    · by_cases gone : (c.run gd).1 = 0
      case pos => exact .inl gone
      case neg =>
        by_cases none : f.ptr = 0
        case pos => exact .inr (.inl none)
        case neg =>
          exact .inr (.inr (.inl (Nat.le_trans (between gone).stop (above f mem none))))
    · obtain rfl | later := List.mem_cons.1 mem
      · exact right
      · exact tail.right e later

/-- Only then. -/
lemma along_of_sound (word : w = 8 * 2 ^ j) (cs : List (Call w)) (ok : gd.Ok)
    (sound : Sound gd.mallocBase gd.mallocLimit (run gd cs)) :
    Along Meets (fun gd c => (c.run gd).2) gd cs := by
  induction cs generalizing gd with
  | nil => trivial
  | cons c cs ih =>
    obtain ⟨apart, right⟩ := sound
    obtain ⟨base_eq, limit_eq⟩ := @Call.run_heap w gd j word c
    refine ⟨Call.meets_of_right ok word (right _ (List.mem_cons_self ..)), ?_⟩
    refine ih (ok.run word c) ?_
    rw [base_eq, limit_eq]
    exact ⟨(List.pairwise_cons.1 apart).2, fun e mem => right e (List.mem_cons_of_mem _ mem)⟩

/-- The heap as it is set up. -/
def start (base limit : BitVec w) : Gd w := ⟨base, limit, 0⟩

/-- The blocks of a run are sound exactly if every call of it meets the condition. -/
theorem heap_sound_iff (word : w = 8 * 2 ^ j) (base limit : BitVec w)
    (aligned : w / 8 ∣ limit.toNat) (room : base.toNat + limit.toNat ≤ 2 ^ w) (cs : List (Call w)) :
    Sound base limit (run (start base limit) cs) ↔
      Along Meets (fun gd c => (c.run gd).2) (start base limit) cs := by
  have ok : (start base limit).Ok := ⟨Nat.zero_le limit.toNat, room, aligned⟩
  exact ⟨along_of_sound word cs ok, sound_of_along word cs ok⟩

/-- Two blocks of an early heap of 1 KiB, one of them aligned. -/
theorem heap_sound_two :
    Sound (0x1000 : BitVec 32) 0x400
      (run (start 0x1000 0x400) [.malloc 10, .memalign 6 100, .malloc 1000]) :=
  (heap_sound_iff (j := 2) (by decide) 0x1000 0x400 (by decide) (by decide) _).2 (by decide)

/-- A request of nearly 4 GiB is granted, and the next block is at the same address as the first. -/
theorem heap_not_sound :
    ¬ ∀ (base limit : BitVec 32) (cs : List (Call 32)), 4 ∣ base.toNat → 4 ∣ limit.toNat →
      base.toNat + limit.toNat ≤ 2 ^ 32 → Sound base limit (run (start base limit) cs) := by
  intro h
  have sound := h 0x1000 0x400 [.malloc 8, .malloc 0xfffffff8, .malloc 8] (by decide) (by decide)
    (by decide)
  have apart := (List.pairwise_cons.1 sound.apart).1 _
    (List.mem_cons_of_mem _ (List.mem_cons_self ..))
  exact absurd apart (by decide)

end Imx.Malloc
