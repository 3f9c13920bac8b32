import Imx.Base.Run
import Imx.Env.Redund

/-!
# The redundant environment on MMC

Model of `common/env_mmc.c` with a redundant copy: `saveenv` writes the copy not in use under the
next value of an 8-bit serial, `env_relocate_spec` imports the copy whose serial is newer. A run is
a sequence of boots, saves that succeed, saves that report a write error and saves interrupted by a
power cut; the state keeps the books of the last successful save and of later interrupted ones
whose copy was fully written.

The serial is incremented before the write is known to succeed, so that errors open a gap between
the serials of the two copies. When the gap reaches over the wrap from 255 to 0, the comparison
takes the older copy for the newer one: `import_stale_after_error` is such a run. `Ok` is what a
step must meet for this not to happen, and `import_last` shows that it is enough.
-/

namespace Imx.Env.Mmc
open Imx.Base

variable {α : Type}

/-- What survives in memory while the board is up: `gd->env_valid` and the serial `env_flags`. -/
structure Ram where
  valid : Which
  flags : UInt8
  deriving DecidableEq

/-- The choice between two intact copies by their serials. -/
def chooseBySerial (flags1 flags2 : UInt8) : Which :=
  if flags1 = 255 ∧ flags2 = 0 then
    .second
  else if flags2 = 255 ∧ flags1 = 0 then
    .first
  else if flags1 > flags2 then
    .first
  else if flags2 > flags1 then
    .second
  else
    .first

/-- The copy that `gd->env_valid` is set to, given which copies were read and passed their
checksum. -/
def chooseCopy (d : Device α) (crc1 crc2 : Bool) : Option Which :=
  match crc1, crc2 with
  | false, false => none
  | true, false => some .first
  | false, true => some .second
  | true, true => some (chooseBySerial d.first.flags d.second.flags)

/-- The copy that a boot chooses when both reads succeed. -/
def chooseIntact (d : Device α) : Option Which :=
  chooseCopy d d.first.crcOk d.second.crcOk

/-- What a boot imports and keeps in memory; `read1` and `read2` tell which reads succeed. Without
a good copy, `gd->env_valid` keeps the `1` of `env_init` and the serial starts at `0`
(C `env_relocate_spec`). -/
def envRelocateSpec (d : Device α) (read1 read2 : Bool) : Import α × Ram :=
  match chooseCopy d (read1 && d.first.crcOk) (read2 && d.second.crcOk) with
  | none => (.default "!bad CRC", { valid := .first, flags := 0 })
  | some w => (.env (d.get w).data, { valid := w, flags := (d.get w).flags })

/-- The copy that a save writes: the serial is incremented, modulo 256, on the way. -/
def newCopy (r : Ram) (data : α) : Copy α :=
  { data, flags := r.flags + 1, crcOk := true }

/-- What may happen: a boot with the outcome of its reads; a save that succeeds; a save whose write
fails, leaving its target unchanged (`none`) or with a bad checksum; a power cut during the write,
leaving the target fully written (`none`) or with a bad checksum. -/
inductive Event (α : Type) where
  | boot (read1 read2 : Bool)
  | save (data : α)
  | error (data : α) (torn : Option (Copy α))
  | cut (data : α) (torn : Option (Copy α))

/-- The device, the memory of a running board, and the books: the environment of the most recent
successful save and those of later interrupted saves whose copy was fully written. -/
structure State (α : Type) where
  dev : Device α
  ram : Option Ram
  last : Option α
  later : List α

/-- A board that is off, with nothing saved yet. -/
def init (d : Device α) : State α :=
  { dev := d, ram := none, last := none, later := [] }

/-- The system after an event; nothing can be saved while the board is off. The copy written is the
one that `gd->env_valid` does not name, and only a successful save moves it (C `saveenv`). -/
def step (s : State α) : Event α → State α
  | .boot read1 read2 => { s with ram := some (envRelocateSpec s.dev read1 read2).2 }
  | .save data =>
    match s.ram with
    | none => s
    | some r =>
      { dev := s.dev.set r.valid.other (newCopy r data)
        ram := some { valid := r.valid.other, flags := r.flags + 1 }
        last := some data
        later := [] }
  | .error _ torn =>
    match s.ram with
    | none => s
    | some r =>
      { s with
        dev := match torn with
          | none => s.dev
          | some c => s.dev.set r.valid.other { c with crcOk := false }
        ram := some { r with flags := r.flags + 1 } }
  | .cut data torn =>
    match s.ram with
    | none => s
    | some r =>
      match torn with
      | none => { s with dev := s.dev.set r.valid.other (newCopy r data), ram := none,
                         later := data :: s.later }
      | some c => { s with dev := s.dev.set r.valid.other { c with crcOk := false }, ram := none }

/-- The serial `new` written to copy `target` counts as newer than the serial `cur` of the other
copy: it lies above it and not just below it around the wrap, or the pair is 255 and 0; equal
serials favour the first copy. -/
def Ahead (target : Which) (cur new : UInt8) : Prop :=
  (cur = 255 ∧ new = 0) ∨ (cur < new ∧ ¬ (cur = 0 ∧ new = 255)) ∨ (cur = new ∧ target = .first)

instance {target : Which} {cur new : UInt8} : Decidable (Ahead target cur new) :=
  inferInstanceAs (Decidable ((_ ∧ _) ∨ (_ ∧ ¬ _) ∨ (_ ∧ _)))

/-- What a step must meet. The serial that a successful save writes is ahead of the one in the copy
in use: failed writes since that copy was written have not carried it over the wrap. A save that
fails or is cut must not run from the older copy, as it does after a boot that could not read the
newer one. -/
def Ok (s : State α) : Event α → Prop
  | .boot _ _ => True
  | .save _ =>
    match s.ram with
    | none => True
    | some r => (s.dev.get r.valid).crcOk = true →
        Ahead r.valid.other (s.dev.get r.valid).flags (r.flags + 1)
  | .error _ none => True
  | .error _ (some _) | .cut _ _ =>
    match s.ram with
    | none => True
    | some r => s.last.isSome → chooseIntact s.dev = some r.valid

/-- The books hold: a boot with good reads finds the environment of the last successful save or a
later one that was fully written. -/
def Inv (s : State α) : Prop :=
  ∀ e, s.last = some e →
    ∃ w, chooseIntact s.dev = some w ∧ ((s.dev.get w).data = e ∨ (s.dev.get w).data ∈ s.later)

/-- The chosen copy passes its checksum. -/
lemma chooseIntact_crc {d : Device α} {w : Which} (h : chooseIntact d = some w) :
    (d.get w).crcOk = true := by
  unfold chooseIntact chooseCopy at h
  split at h
  · cases h
  · cases h
    assumption
  · cases h
    assumption
  · rename_i c1 c2
    cases w with
    | first => exact c1
    | second => exact c2

/-- With one copy unreadable the other is chosen. -/
lemma chooseIntact_of_torn {d : Device α} {w : Which} (crc : (d.get w).crcOk = true)
    (bad : (d.get w.other).crcOk = false) : chooseIntact d = some w := by
  cases w with
  | first =>
    change d.first.crcOk = true at crc
    change d.second.crcOk = false at bad
    simp only [chooseIntact, chooseCopy, crc, bad]
  | second =>
    change d.second.crcOk = true at crc
    change d.first.crcOk = false at bad
    simp only [chooseIntact, chooseCopy, crc, bad]

/-- With both copies intact one of them is chosen. -/
lemma chooseIntact_both {d : Device α} {w : Which} (crc : (d.get w).crcOk = true)
    (crc' : (d.get w.other).crcOk = true) :
    chooseIntact d = some w ∨ chooseIntact d = some w.other := by
  obtain ⟨u, e⟩ : ∃ u, chooseIntact d = some u := by
    cases w with
    | first =>
      change d.first.crcOk = true at crc
      change d.second.crcOk = true at crc'
      exact ⟨_, by simp only [chooseIntact, chooseCopy, crc, crc']; rfl⟩
    | second =>
      change d.second.crcOk = true at crc
      change d.first.crcOk = true at crc'
      exact ⟨_, by simp only [chooseIntact, chooseCopy, crc, crc']; rfl⟩
  rw [e]
  obtain rfl | rfl := Which.eq_or_other w u
  · exact .inl rfl
  · exact .inr rfl

/-- The serial comparison favours the serial that is ahead. -/
lemma Ahead.chooseBySerial {w : Which} {cur new : UInt8} (ah : Ahead w cur new) :
    (match w with
      | .first => Mmc.chooseBySerial new cur
      | .second => Mmc.chooseBySerial cur new) = w := by
  cases w with
  | first =>
    obtain ⟨rfl, rfl⟩ | ⟨lt, ne⟩ | ⟨rfl, -⟩ := ah
    · rfl
    · have h : ¬ (new = 255 ∧ cur = 0) := fun h => ne h.symm
      simp only [Mmc.chooseBySerial, if_neg h, if_pos lt, ite_self]
    · by_cases h : cur = 255 ∧ cur = 0
      · exact absurd (h.1.symm.trans h.2) (by decide)
      · simp only [Mmc.chooseBySerial, if_neg h, UInt8.lt_irrefl, gt_iff_lt, if_false]
  | second =>
    obtain ⟨rfl, rfl⟩ | ⟨lt, ne⟩ | ⟨-, h⟩ := ah
    · rfl
    · have h : ¬ (new = 255 ∧ cur = 0) := fun h => ne h.symm
      have h' : ¬ cur > new := UInt8.lt_asymm lt
      simp only [Mmc.chooseBySerial, if_neg h, if_neg h', if_pos lt, ite_self]
    · cases h

/-- A copy whose serial is ahead is chosen. -/
lemma chooseIntact_of_ahead {d : Device α} {w : Which} (crc : (d.get w).crcOk = true)
    (crc' : (d.get w.other).crcOk = true)
    (ah : Ahead w (d.get w.other).flags (d.get w).flags) : chooseIntact d = some w := by
  have ch := ah.chooseBySerial
  cases w with
  | first =>
    change d.first.crcOk = true at crc
    change d.second.crcOk = true at crc'
    simp only [chooseIntact, chooseCopy, crc, crc']
    exact congrArg some ch
  | second =>
    change d.second.crcOk = true at crc
    change d.first.crcOk = true at crc'
    simp only [chooseIntact, chooseCopy, crc, crc']
    exact congrArg some ch

/-- Every step that meets its condition keeps the books. -/
lemma step_inv {s : State α} {ev : Event α} (iv : Inv s) (ok : Ok s ev) : Inv (step s ev) := by
  cases ev with
  | boot read1 read2 => exact iv
  | save data =>
    cases hr : s.ram with
    | none => simpa only [step, hr] using iv
    | some r =>
      simp only [Ok, hr] at ok
      simp only [step, hr]
      intro e he
      obtain rfl := Option.some.inj he
      refine ⟨r.valid.other, ?_, .inl (by rw [Device.get_set_self]; rfl)⟩
      cases crc : (s.dev.get r.valid).crcOk with
      | false =>
        apply chooseIntact_of_torn
        · rw [Device.get_set_self]
          rfl
        · rw [Which.other_other, Device.get_set_of_other]
          exact crc
      | true =>
        apply chooseIntact_of_ahead
        · rw [Device.get_set_self]
          rfl
        · rw [Which.other_other, Device.get_set_of_other]
          exact crc
        · rw [Which.other_other, Device.get_set_of_other, Device.get_set_self]
          exact ok crc
  | error data torn =>
    cases hr : s.ram with
    | none => simpa only [step, hr] using iv
    | some r =>
      cases torn with
      | none =>
        simp only [step, hr]
        exact iv
      | some c =>
        simp only [Ok, hr] at ok
        simp only [step, hr]
        intro e he
        obtain ⟨w, ch, al⟩ := iv e he
        -- the copy in use is the one that is chosen, and the write does not touch it
        obtain rfl : r.valid = w := Option.some.inj ((ok (by rw [he]; rfl)).symm.trans ch)
        refine ⟨r.valid, ?_, by rw [Device.get_set_of_other]; exact al⟩
        apply chooseIntact_of_torn
        · rw [Device.get_set_of_other]
          exact chooseIntact_crc ch
        · rw [Device.get_set_self]
  | cut data torn =>
    cases hr : s.ram with
    | none => simpa only [step, hr] using iv
    | some r =>
      simp only [Ok, hr] at ok
      cases torn with
      | none =>
        simp only [step, hr]
        intro e he
        obtain ⟨w, ch, al⟩ := iv e he
        obtain rfl : r.valid = w := Option.some.inj ((ok (by rw [he]; rfl)).symm.trans ch)
        have crc : ((s.dev.set r.valid.other (newCopy r data)).get r.valid).crcOk = true := by
          rw [Device.get_set_of_other]
          exact chooseIntact_crc ch
        obtain h | h := chooseIntact_both crc (by rw [Device.get_set_self]; rfl)
        · refine ⟨_, h, ?_⟩
          rw [Device.get_set_of_other]
          exact al.imp id (List.mem_cons_of_mem _)
        · refine ⟨_, h, .inr ?_⟩
          rw [Device.get_set_self]
          exact List.mem_cons_self
      | some c =>
        simp only [step, hr]
        intro e he
        obtain ⟨w, ch, al⟩ := iv e he
        obtain rfl : r.valid = w := Option.some.inj ((ok (by rw [he]; rfl)).symm.trans ch)
        refine ⟨r.valid, ?_, by rw [Device.get_set_of_other]; exact al⟩
        apply chooseIntact_of_torn
        · rw [Device.get_set_of_other]
          exact chooseIntact_crc ch
        · rw [Device.get_set_self]

/-- Along every run whose steps meet their condition, a boot whose reads succeed imports the
environment of the most recent successful save, or that of a later interrupted one whose copy was
fully written. -/
theorem import_last (d : Device α) {evs : List (Event α)} (run : Along Ok step (init d) evs) {e : α}
    (saved : (evs.foldl step (init d)).last = some e) :
    ∃ x, (envRelocateSpec (evs.foldl step (init d)).dev true true).1 = .env x ∧
      (x = e ∨ x ∈ (evs.foldl step (init d)).later) := by
  have iv : Inv (evs.foldl step (init d)) :=
    run.invariant (P := Inv) (fun e h => nomatch h) (fun s ev iv ok => step_inv iv ok)
  obtain ⟨w, ch, al⟩ := iv e saved
  refine ⟨_, ?_, al⟩
  unfold chooseIntact at ch
  simp only [envRelocateSpec, Bool.true_and, ch]

/-- A blank device: neither copy passes its checksum. -/
def blank : Device Nat :=
  ⟨⟨0, 0xFF, false⟩, ⟨0, 0xFF, false⟩⟩

/-- A run with a write error and a power cut. -/
def interruptedRun : List (Event Nat) :=
  [.boot true true, .save 1, .error 2 none, .save 3, .cut 4 (some ⟨0, 0, false⟩)]

/-- The theorem at that run. -/
theorem import_last_interrupted :
    ∃ x, (envRelocateSpec (interruptedRun.foldl step (init blank)).dev true true).1 = .env x ∧
      (x = 3 ∨ x ∈ (interruptedRun.foldl step (init blank)).later) :=
  import_last blank (by
    refine ⟨trivial, ?_, trivial, ?_, ?_, trivial⟩
    · intro h
      cases h
    · intro _
      decide
    · intro _
      decide) (by decide)

/-- A run from a blank device that brings the serial to 254, followed by a write error and one more
successful save. -/
def wrapRun : List (Event Nat) :=
  .boot true true :: (List.replicate 254 (Event.save 0) ++ [Event.error 1 none, .save 2])

/-- The comparison of serials misses a gap over the wrap: the error takes the serial to 255 and the
save to 0, and a boot imports the environment saved before, whose serial is 254. -/
theorem import_stale_after_error :
    (wrapRun.foldl step (init blank)).last = some 2 ∧
      (wrapRun.foldl step (init blank)).later = [] ∧
      (envRelocateSpec (wrapRun.foldl step (init blank)).dev true true).1 = .env 0 := by
  refine ⟨?_, ?_, ?_⟩ <;> decide +kernel

end Imx.Env.Mmc
