import Imx.Base.Run
import Imx.Env.Mmc

/-!
# The environment shared with Linux

Model of how `tools/env/fw_env.c` opens and closes a redundant environment, and of a board on which
both tools save: `saveenv` of `common/env_mmc.c` while U-Boot runs, `fw_setenv` once Linux does.
The tool runs no part of U-Boot, so what `gd->env_valid` and `env_flags` held is gone when Linux
saves: U-Boot saves again only after another boot.

The two tools choose between two intact copies by the same rule (`fwChoose_eq`), and each writes
the copy not chosen under the next serial. `tools_agree` follows along every run.
-/

namespace Imx.Env.FwEnv
open Imx.Base Imx.Env.Mmc

variable {α : Type}

/-- The types of devices (C `MTD_*`); a file that is no character device is `absent`. -/
inductive MtdType where
  | absent
  | norflash
  | nandflash
  | dataflash
  | ubivolume
  deriving DecidableEq, Repr

/-- What the flags byte of a copy stands for (C `enum flag_scheme`). -/
inductive FlagScheme where
  | boolean
  | incremental
  deriving DecidableEq, Repr

/-- The scheme for a pair of devices; other pairs are incompatible. -/
def flagScheme : MtdType → MtdType → Option FlagScheme
  | .norflash, .norflash => some .boolean
  | .nandflash, .nandflash => some .incremental
  | .dataflash, .dataflash => some .boolean
  | .ubivolume, .ubivolume => some .incremental
  | .absent, .absent => some .incremental
  | _, _ => none

/-- C `active_flag`. -/
def activeFlag : UInt8 := 1
/-- C `obsolete_flag`. -/
def obsoleteFlag : UInt8 := 0

/-- The choice between two intact copies by their flags. -/
def fwChoose (scheme : FlagScheme) (flag0 flag1 : UInt8) : Which :=
  match scheme with
  | .boolean =>
    if flag0 = activeFlag ∧ flag1 = obsoleteFlag then .first
    else if flag0 = obsoleteFlag ∧ flag1 = activeFlag then .second
    else if flag0 = flag1 then .first
    else if flag0 = 0xFF then .first
    else if flag1 = 0xFF then .second
    else .first
  | .incremental =>
    if flag0 = 255 ∧ flag1 = 0 then .second
    else if (flag1 = 255 ∧ flag0 = 0) ∨ flag0 ≥ flag1 then .first
    else .second

/-- An opened environment: the copy it was read from (C `dev_current`), its flags and its data. -/
structure Opened (α : Type) where
  scheme : FlagScheme
  current : Which
  flags : UInt8
  data : α
  deriving DecidableEq

/-- Read both copies and choose one; without a good one the default environment goes over the
first (C `fw_env_open`). -/
def fwEnvOpen (type0 type1 : MtdType) (default : α) (d : Device α) : Option (Opened α) :=
  (flagScheme type0 type1).map fun scheme =>
    let opened (w : Which) : Opened α :=
      { scheme, current := w, flags := (d.get w).flags, data := (d.get w).data }
    match d.first.crcOk, d.second.crcOk with
    | true, false => opened .first
    | false, true => opened .second
    | false, false => { opened .first with data := default }
    | true, true => opened (fwChoose scheme d.first.flags d.second.flags)

/-- The flags the image is written with (C `flash_write`, first part). -/
def nextFlags (scheme : FlagScheme) (flags : UInt8) : UInt8 :=
  match scheme with
  | .boolean => activeFlag
  | .incremental => flags + 1

/-- Write the image over the copy that was not opened; with Boolean flags the opened one is marked
obsolete afterwards (C `flash_write`). -/
def flashWrite (o : Opened α) (d : Device α) : Device α :=
  let d := d.set o.current.other
    { data := o.data, flags := nextFlags o.scheme o.flags, crcOk := true }
  match o.scheme with
  | .boolean => d.set o.current { d.get o.current with flags := obsoleteFlag }
  | .incremental => d

/-- A run of the tool that changes the environment, with its writes succeeding (C `fw_setenv`). -/
def fwSetenv (type0 type1 : MtdType) (default : α) (edit : α → α) (d : Device α) :
    Option (Device α × Opened α) :=
  (fwEnvOpen type0 type1 default d).map fun o =>
    let o := { o with data := edit o.data }
    (flashWrite o d, o)

/-- What may happen on the board: a complete boot, a save by U-Boot, a save by Linux. -/
inductive Event (α : Type) where
  | boot
  | save (data : α)
  | fwSetenv (edit : α → α)

/-- The device, the memory of U-Boot while it runs, and which copy the most recent save wrote with
which data. -/
structure State (α : Type) where
  dev : Device α
  ram : Option Ram
  last : Option (Which × α)

/-- A board that is off. -/
def init (d : Device α) : State α := { dev := d, ram := none, last := none }

/-- The board after an event, with files or block devices for the copies; nothing happens to the
environment when U-Boot would have to save without running. -/
def step (default : α) (s : State α) : Event α → State α
  | .boot => { s with ram := some (envRelocateSpec s.dev true true).2 }
  | .save data =>
    match s.ram with
    | none => s
    | some r =>
      { dev := s.dev.set r.valid.other (newCopy r data)
        ram := some { valid := r.valid.other, flags := r.flags + 1 }
        last := some (r.valid.other, data) }
  | .fwSetenv edit =>
    match fwSetenv .absent .absent default edit s.dev with
    | none => s
    | some (d, o) => { dev := d, ram := none, last := some (o.current.other, o.data) }

/-- The copy `w` is intact, and the other one is not or has the serial before. -/
def Newest (d : Device α) (w : Which) : Prop :=
  (d.get w).crcOk = true ∧
    ((d.get w.other).crcOk = true → (d.get w).flags = (d.get w.other).flags + 1)

/-- What a run may start from: two intact copies with consecutive serials, or a single intact one. -/
def Start (d : Device α) : Prop := ∃ w, Newest d w

instance (d : Device α) (w : Which) : Decidable (Newest d w) :=
  inferInstanceAs (Decidable (_ ∧ (_ → _)))

/-- The next serial is ahead, also over the wrap. -/
lemma ahead_succ {w : Which} {cur : UInt8} : Ahead w cur (cur + 1) := by
  by_cases top : cur = 255
  · subst top
    exact .inl ⟨rfl, rfl⟩
  · have lt : cur.toNat < 255 := by
      have ne : cur.toNat ≠ 255 := fun e => top (UInt8.toNat_inj.1 e)
      have := cur.toNat_lt
      omega
    have succ : (cur + 1).toNat = cur.toNat + 1 := by
      rw [UInt8.toNat_add, UInt8.toNat_one]
      omega
    refine .inr (.inl ⟨UInt8.lt_iff_toNat_lt.2 (by omega), fun h => ?_⟩)
    obtain ⟨zero, wrap⟩ := h
    rw [wrap, zero] at succ
    cases succ

/-- Both tools have the same rule for two intact copies. -/
lemma fwChoose_eq {flag0 flag1 : UInt8} :
    fwChoose .incremental flag0 flag1 = chooseBySerial flag0 flag1 := by
  rw [fwChoose, chooseBySerial]
  by_cases wrap0 : flag0 = 255 ∧ flag1 = 0
  · rw [if_pos wrap0, if_pos wrap0]
  · rw [if_neg wrap0, if_neg wrap0]
    by_cases wrap1 : flag1 = 255 ∧ flag0 = 0
    · rw [if_pos wrap1, if_pos (.inl wrap1)]
    · rw [if_neg wrap1]
      by_cases ge : flag0 ≥ flag1
      · have notLt : ¬ flag1 > flag0 := UInt8.not_lt.2 ge
        rw [if_pos (.inr ge), if_neg notLt, ite_self]
      · have lt : flag0 < flag1 := UInt8.not_le.1 ge
        have notGt : ¬ flag0 > flag1 := UInt8.lt_asymm lt
        rw [if_neg (not_or.2 ⟨wrap1, ge⟩), if_neg notGt, if_pos lt]

/-- Both tools choose the same copy, whatever the device holds. -/
lemma fwEnvOpen_current (default : α) {d : Device α} {w : Which} (chosen : chooseIntact d = some w) :
    fwEnvOpen .absent .absent default d =
      some { scheme := .incremental, current := w, flags := (d.get w).flags, data := (d.get w).data } := by
  simp only [chooseIntact, chooseCopy] at chosen
  simp only [fwEnvOpen, flagScheme, Option.map_some, fwChoose_eq]
  split at chosen
  · cases chosen
  · cases chosen
    simp only [*]
  · cases chosen
    simp only [*]
  · cases chosen
    simp only [*]

/-- The newest copy is the one that is chosen. -/
lemma Newest.chosen {d : Device α} {w : Which} (newest : Newest d w) : chooseIntact d = some w := by
  obtain ⟨crc, serial⟩ := newest
  cases crc' : (d.get w.other).crcOk with
  | false => exact chooseIntact_of_torn crc crc'
  | true =>
    apply chooseIntact_of_ahead crc crc'
    rw [serial crc']
    exact ahead_succ

/-- A copy written over the older one under the next serial is the newest. -/
lemma Newest.write {d : Device α} {w : Which} (data : α) :
    Newest (d.set w.other { data, flags := (d.get w).flags + 1, crcOk := true }) w.other := by
  constructor
  · rw [Device.get_set_self]
  · intro _
    rw [Device.get_set_self, Which.other_other, Device.get_set_of_other]

/-- The invariant: some copy is the newest, U-Boot knows it while it runs, and it is the one that
was saved last. -/
structure Inv (s : State α) (w : Which) : Prop where
  newest : Newest s.dev w
  ram : ∀ r, s.ram = some r → r = { valid := w, flags := (s.dev.get w).flags }
  last : ∀ v data, s.last = some (v, data) → v = w ∧ (s.dev.get w).data = data

/-- Every event keeps the invariant, with the newest copy moving to the one a save writes. -/
lemma step_inv {default : α} {s : State α} {w : Which} {ev : Event α} (iv : Inv s w) :
    ∃ w', Inv (step default s ev) w' := by
  cases ev with
  | boot =>
    have chosen := iv.newest.chosen
    unfold chooseIntact at chosen
    refine ⟨w, iv.newest, fun r h => ?_, iv.last⟩
    simp only [step, envRelocateSpec, Bool.true_and, chosen, Option.some.injEq] at h
    exact h.symm
  | save data =>
    cases hr : s.ram with
    | none => exact ⟨w, by simpa only [step, hr] using iv⟩
    | some r =>
      obtain rfl := iv.ram r hr
      refine ⟨w.other, ?_, fun r' h => ?_, fun v data' h => ?_⟩
      · simp only [step, hr]
        exact Newest.write data
      · simp only [step, hr, Option.some.injEq] at h ⊢
        rw [← h, Device.get_set_self]
        rfl
      · simp only [step, hr, Option.some.injEq, Prod.mk.injEq] at h ⊢
        rw [Device.get_set_self]
        exact ⟨h.1.symm, h.2⟩
  | fwSetenv edit =>
    have opened := fwEnvOpen_current default iv.newest.chosen
    refine ⟨w.other, ?_, fun r' h => ?_, fun v data' h => ?_⟩
    · simp only [step, fwSetenv, opened, Option.map_some, flashWrite, nextFlags]
      exact Newest.write _
    · simp only [step, fwSetenv, opened, Option.map_some] at h
      cases h
    · simp only [step, fwSetenv, opened, Option.map_some, flashWrite, Option.some.injEq,
        Prod.mk.injEq] at h ⊢
      rw [Device.get_set_self]
      exact ⟨h.1.symm, h.2⟩

/-- The invariant holds along every run. -/
lemma run_inv {default : α} {s : State α} {evs : List (Event α)} (iv : ∃ w, Inv s w) :
    ∃ w, Inv (evs.foldl (step default) s) w := by
  induction evs generalizing s with
  | nil => exact iv
  | cons ev evs ih =>
    obtain ⟨w, iv⟩ := iv
    exact ih (step_inv iv)

/-- Saves by U-Boot and by Linux can alternate freely: after every run, a boot and `fw_env_open`
choose the same copy, and it is the one that the most recent save wrote, with its data. -/
theorem tools_agree (default : α) {d : Device α} (start : Start d) (evs : List (Event α)) :
    let s := evs.foldl (step default) (init d)
    ∃ w o, (envRelocateSpec s.dev true true) =
        (.env (s.dev.get w).data, { valid := w, flags := (s.dev.get w).flags }) ∧
      fwEnvOpen .absent .absent default s.dev = some o ∧ o.current = w ∧
      o.data = (s.dev.get w).data ∧
      ∀ v data, s.last = some (v, data) → v = w ∧ (s.dev.get w).data = data := by
  obtain ⟨w0, newest⟩ := start
  obtain ⟨w, iv⟩ := @run_inv _ default (init d) evs
    ⟨w0, newest, fun r h => (nomatch h), fun v data h => (nomatch h)⟩
  have chosen := iv.newest.chosen
  refine ⟨w, _, ?_, fwEnvOpen_current default chosen, rfl, rfl, iv.last⟩
  unfold chooseIntact at chosen
  simp only [envRelocateSpec, Bool.true_and, chosen]

/-- Two copies whose serials are 254 and 255. -/
def wrapping : Device Nat := ⟨⟨1, 254, true⟩, ⟨2, 255, true⟩⟩

/-- Saves of both tools that take the serial over the wrap. -/
def mixedRun : List (Event Nat) := [.boot, .save 3, .fwSetenv (· + 10), .boot, .save 5]

/-- The tools agree after that run. -/
theorem tools_agree_wrap :
    let s := mixedRun.foldl (step 0) (init wrapping)
    ∃ w o, (envRelocateSpec s.dev true true) =
        (.env (s.dev.get w).data, { valid := w, flags := (s.dev.get w).flags }) ∧
      fwEnvOpen .absent .absent 0 s.dev = some o ∧ o.current = w ∧
      o.data = (s.dev.get w).data ∧
      ∀ v data, s.last = some (v, data) → v = w ∧ (s.dev.get w).data = data :=
  tools_agree 0 ⟨.second, by decide⟩ mixedRun

end Imx.Env.FwEnv
