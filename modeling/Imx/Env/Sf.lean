import Imx.Env.Redund

/-!
# The redundant environment in SPI flash

Model of `common/env_sf.c` with a redundant copy: `saveenv` as its sequence of flash primitives,
each of which a power cut may interrupt, and `env_relocate_spec` as the choice between the copies.
A `Run` interleaves boots, completed saves and interrupted ones; its state keeps the books of what
a later boot may find, namely the environment of the last completed save and those of later saves
that were cut after their data were complete. `Run.import_saved` shows that no boot ever finds
anything else.

C → Lean naming: `saveenv` → `savePrims` (the primitives) and `Step.save`; `env_relocate_spec` →
`envRelocateSpec`, with `chooseCopy` for the choice of `gd->env_valid`.
-/

namespace Imx.Env.Sf

variable {α : Type}

/-- The copy was written last (C `ACTIVE_FLAG`). -/
def activeFlag : UInt8 := 1

/-- The copy was replaced (C `OBSOLETE_FLAG`). -/
def obsoleteFlag : UInt8 := 0

/-- A write to the flash, as `saveenv` issues it. -/
inductive Prim (α : Type) where
  | erase (w : Which)
  | write (w : Which) (data : α)
  | restore
  | obsolete (w : Which)

/-- The writes of `saveenv` in order. `sectLarger` is `CONFIG_ENV_SECT_SIZE > CONFIG_ENV_SIZE`: the
rest of the sector is then put back after the erase (C `saveenv`). -/
def savePrims (sectLarger : Bool) (envValid : Which) (data : α) : List (Prim α) :=
  let new := envValid.other
  [Prim.erase new, .write new data] ++ (if sectLarger then [Prim.restore] else []) ++
    [Prim.obsolete envValid]

/-- The flash after a primitive that ran to its end; an erased copy reads as `0xFF` and fails its
checksum, and the rest of the sector is no part of a copy. -/
def Prim.done (d : Device α) : Prim α → Device α
  | .erase w => d.set w { d.get w with flags := 0xFF, crcOk := false }
  | .write w data => d.set w { data, flags := activeFlag, crcOk := true }
  | .restore => d
  | .obsolete w => d.set w { d.get w with flags := obsoleteFlag }

/-- What a primitive that was cut short may leave: nothing done, or a copy that fails its checksum.
A flag byte not yet written keeps its value. -/
inductive Prim.Torn (d : Device α) : Prim α → Device α → Prop where
  | unchanged {p} :
    Torn d p d
  | erase {w c} :
    c.crcOk = false →
    Torn d (.erase w) (d.set w c)
  | write {w data c} :
    c.crcOk = false →
    Torn d (.write w data) (d.set w c)

/-- The flash after a save was cut: the primitives `ps` that ran to their end, and then perhaps a
part of the next one. -/
inductive CutSave (d : Device α) : (ps rest : List (Prim α)) → Device α → Prop where
  | between {ps rest} :
    CutSave d ps rest (ps.foldl Prim.done d)
  | within {ps p rest d'} :
    p.Torn (ps.foldl Prim.done d) d' →
    CutSave d ps (p :: rest) d'

/-- The choice between two intact copies by their flags. -/
def chooseByFlags (flags1 flags2 : UInt8) : Which :=
  if flags1 = activeFlag ∧ flags2 = obsoleteFlag then
    .first
  else if flags1 = obsoleteFlag ∧ flags2 = activeFlag then
    .second
  else if flags1 = flags2 then
    .first
  else if flags1 = 0xFF then
    .first
  else if flags2 = 0xFF then
    .second
  else
    .first

/-- The copy that `gd->env_valid` is set to, `none` when neither passes its checksum. -/
def chooseCopy (d : Device α) : Option Which :=
  match d.first.crcOk, d.second.crcOk with
  | false, false => none
  | true, false => some .first
  | false, true => some .second
  | true, true => some (chooseByFlags d.first.flags d.second.flags)

/-- The environment that a boot imports and the copy it names as valid; without a good copy
`gd->env_valid` keeps the `1` of `env_init`. A copy that passes its checksum holds what was
exported into it, so that importing it succeeds (C `env_relocate_spec`). -/
def envRelocateSpec (d : Device α) : Import α × Which :=
  match chooseCopy d with
  | none => (.default "!bad CRC", .first)
  | some w => (.env (d.get w).data, w)

/-- The system: the flash, `gd->env_valid` while the board is up, and the books: the environment of
the last completed save and those of later saves cut after their data were complete. -/
structure State (α : Type) where
  flash : Device α
  envValid : Option Which
  last : α
  later : List α

/-- What may happen to the system. -/
inductive Step (sectLarger : Bool) : State α → State α → Prop where
  | boot {s} :
    Step sectLarger s { s with envValid := some (envRelocateSpec s.flash).2 }
  | save {s v data} :
    s.envValid = some v →
    Step sectLarger s
      { flash := (savePrims sectLarger v data).foldl Prim.done s.flash
        envValid := some v.other
        last := data
        later := [] }
  | cut {s v data ps rest d'} :
    s.envValid = some v →
    savePrims sectLarger v data = ps ++ rest →
    CutSave s.flash ps rest d' →
    Step sectLarger s
      { flash := d'
        envValid := none
        last := s.last
        later := if 2 ≤ ps.length then data :: s.later else s.later }

/-- A run of the system. -/
inductive Run (sectLarger : Bool) : State α → State α → Prop where
  | refl {s} :
    Run sectLarger s s
  | tail {s s1 s2} :
    Run sectLarger s s1 →
    Step sectLarger s1 s2 →
    Run sectLarger s s2

/-- The state left by a completed save of `data` over a flash with any contents. -/
def afterSave (sectLarger : Bool) (d : Device α) (v : Which) (data : α) : State α :=
  { flash := (savePrims sectLarger v data).foldl Prim.done d
    envValid := some v.other
    last := data
    later := [] }

/-- An environment that a boot is allowed to find. -/
def State.Allowed (s : State α) (data : α) : Prop :=
  data = s.last ∨ data ∈ s.later

/-- Copy `v` can be relied on: it is intact and allowed, and whatever the other copy holds is
unreadable, allowed as well, or marked as replaced by `v`. -/
structure Sound (d : Device α) (al : α → Prop) (v : Which) : Prop where
  crc : (d.get v).crcOk = true
  allowed : al (d.get v).data
  other : (d.get v.other).crcOk = false ∨ al (d.get v.other).data ∨
    ((d.get v).flags = activeFlag ∧ (d.get v.other).flags = obsoleteFlag)

/-- The invariant of a run: the copy in use can be relied on; after a power cut, some copy can. -/
def Inv (s : State α) : Prop :=
  ∃ v, Sound s.flash s.Allowed v ∧ ∀ u, s.envValid = some u → u = v

/-- The choice falls on an intact copy, and not on one marked as replaced by the other. -/
lemma chooseCopy_spec {d : Device α} {v : Which} (crc : (d.get v).crcOk = true) :
    ∃ w, chooseCopy d = some w ∧ (d.get w).crcOk = true ∧
      ((d.get v).flags = activeFlag ∧ (d.get v.other).flags = obsoleteFlag → w = v) := by
  cases v with
  | first =>
    change d.first.crcOk = true at crc
    cases c2 : d.second.crcOk with
    | false => exact ⟨.first, by simp only [chooseCopy, crc, c2], crc, fun _ => rfl⟩
    | true =>
      refine ⟨chooseByFlags d.first.flags d.second.flags, by simp only [chooseCopy, crc, c2], ?_, ?_⟩
      · cases chooseByFlags d.first.flags d.second.flags with
        | first => exact crc
        | second => exact c2
      · intro rep
        exact if_pos rep
  | second =>
    change d.second.crcOk = true at crc
    cases c1 : d.first.crcOk with
    | false => exact ⟨.second, by simp only [chooseCopy, crc, c1], crc, fun _ => rfl⟩
    | true =>
      refine ⟨chooseByFlags d.first.flags d.second.flags, by simp only [chooseCopy, crc, c1], ?_, ?_⟩
      · cases chooseByFlags d.first.flags d.second.flags with
        | first => exact c1
        | second => exact crc
      · rintro ⟨a, o⟩
        change d.second.flags = activeFlag at a
        change d.first.flags = obsoleteFlag at o
        rw [a, o]
        rfl

/-- A boot finds an allowed environment in a copy that can be relied on. -/
lemma Sound.boot {d : Device α} {al : α → Prop} {v : Which} (sd : Sound d al v) :
    ∃ w, chooseCopy d = some w ∧ Sound d al w := by
  obtain ⟨w, e, crc, keep⟩ := chooseCopy_spec sd.crc
  refine ⟨w, e, ?_⟩
  obtain rfl | rfl := Which.eq_or_other v w
  · exact sd
  · obtain bad | al | rep := sd.other
    · rw [bad] at crc
      cases crc
    · exact ⟨crc, al, .inr (.inl (by rw [Which.other_other]; exact sd.allowed))⟩
    · exact absurd (keep rep) Which.other_ne

/-- The effect of a completed save. -/
lemma foldl_savePrims (sectLarger : Bool) (d : Device α) (v : Which) (data : α) :
    (savePrims sectLarger v data).foldl Prim.done d =
      (d.set v.other { data, flags := activeFlag, crcOk := true }).set v
        { d.get v with flags := obsoleteFlag } := by
  cases sectLarger <;> cases v <;> rfl

/-- A completed save leaves a copy that can be relied on. -/
lemma afterSave_sound (sectLarger : Bool) (d : Device α) (v : Which) (data : α) :
    Sound ((savePrims sectLarger v data).foldl Prim.done d) (fun x => x = data ∨ x ∈ []) v.other := by
  rw [foldl_savePrims]
  refine ⟨?_, .inl ?_, .inr (.inr ?_)⟩
  · rw [Device.get_set_other, Device.get_set_self]
  · rw [Device.get_set_other, Device.get_set_self]
  · rw [Device.get_set_other, Device.get_set_self, Which.other_other, Device.get_set_self]
    exact ⟨rfl, rfl⟩

/-- A cut behind the data leaves what the completed primitives left. -/
lemma CutSave.settled {d d' : Device α} {v : Which} {ps rest} (ct : CutSave d ps rest d')
    (whole : ∀ p ∈ rest, p = .restore ∨ p = .obsolete v) : d' = ps.foldl Prim.done d := by
  cases ct with
  | between => rfl
  | within torn =>
    obtain rfl | rfl := whole _ List.mem_cons_self
    · cases torn with
      | unchanged => rfl
    · cases torn with
      | unchanged => rfl

/-- What a cut save can leave: the flash as it was, the new copy unreadable, the new copy complete,
or that and the old copy marked as well. -/
lemma CutSave.cases {sectLarger : Bool} {d d' : Device α} {v : Which} {data : α} {ps rest}
    (eq : savePrims sectLarger v data = ps ++ rest) (ct : CutSave d ps rest d') :
    (ps.length < 2 ∧ (d' = d ∨ ∃ c, c.crcOk = false ∧ d' = d.set v.other c)) ∨
    (2 ≤ ps.length ∧
      (d' = d.set v.other { data, flags := activeFlag, crcOk := true } ∨
       d' = (d.set v.other { data, flags := activeFlag, crcOk := true }).set v
          { d.get v with flags := obsoleteFlag })) := by
  unfold savePrims at eq
  obtain _ | ⟨p1, _ | ⟨p2, ps⟩⟩ := ps
  · -- cut in the erase
    refine .inl ⟨by simp, ?_⟩
    cases ct with
    | between => exact .inl rfl
    | within torn =>
      obtain ⟨rfl, -⟩ := List.cons.inj eq
      cases torn with
      | unchanged => exact .inl rfl
      | erase bad => exact .inr ⟨_, bad, rfl⟩
  · -- cut in the write of the new copy, which was erased before
    refine .inl ⟨by simp, .inr ?_⟩
    obtain ⟨rfl, eq1⟩ := List.cons.inj eq
    cases ct with
    | between => exact ⟨_, rfl, rfl⟩
    | within torn =>
      obtain ⟨rfl, -⟩ := List.cons.inj eq1
      cases torn with
      | unchanged => exact ⟨_, rfl, rfl⟩
      | @write _ _ c bad => exact ⟨c, bad, by cases v <;> rfl⟩
  · -- the new copy is complete
    refine .inr ⟨by simp, ?_⟩
    obtain ⟨rfl, eq1⟩ := List.cons.inj eq
    obtain ⟨rfl, eq2⟩ := List.cons.inj eq1
    have whole : ∀ p ∈ ps ++ rest, p = .restore ∨ p = .obsolete v := by
      change (if sectLarger then [Prim.restore] else []) ++ [Prim.obsolete v] = ps ++ rest at eq2
      intro p mem
      rw [← eq2] at mem
      cases sectLarger with
      | false => exact .inr (List.mem_singleton.mp mem)
      | true => exact (List.mem_cons.mp mem).imp_right List.mem_singleton.mp
    rw [ct.settled fun p mem => whole p (List.mem_append_right ps mem)]
    cases sectLarger with
    | false =>
      obtain _ | ⟨p3, ps⟩ := ps
      · exact .inl (by cases v <;> rfl)
      · obtain ⟨rfl, eq3⟩ := List.cons.inj eq2
        obtain ⟨rfl, rfl⟩ := List.nil_eq_append_iff.mp eq3
        exact .inr (by cases v <;> rfl)
    | true =>
      obtain _ | ⟨p3, _ | ⟨p4, ps⟩⟩ := ps
      · exact .inl (by cases v <;> rfl)
      · obtain ⟨rfl, eq3⟩ := List.cons.inj eq2
        exact .inl (by cases v <;> rfl)
      · obtain ⟨rfl, eq3⟩ := List.cons.inj eq2
        obtain ⟨rfl, eq4⟩ := List.cons.inj eq3
        obtain ⟨rfl, rfl⟩ := List.nil_eq_append_iff.mp eq4
        exact .inr (by cases v <;> rfl)

/-- A save that is cut leaves a copy that can be relied on: the copy in use is not touched before
the new one is complete. -/
lemma CutSave.sound {sectLarger : Bool} {s : State α} {v : Which} {data : α} {ps rest d'}
    (sd : Sound s.flash s.Allowed v) (eq : savePrims sectLarger v data = ps ++ rest)
    (ct : CutSave s.flash ps rest d') :
    ∃ w, Sound d'
      (fun x => x = s.last ∨ x ∈ if 2 ≤ ps.length then data :: s.later else s.later) w := by
  obtain ⟨crc, al, ot⟩ := sd
  obtain ⟨lt, rfl | ⟨c, bad, rfl⟩⟩ | ⟨le, rfl | rfl⟩ := ct.cases eq
  · rw [if_neg (by omega)]
    exact ⟨v, crc, al, ot⟩
  · rw [if_neg (by omega)]
    refine ⟨v, ?_, ?_, .inl ?_⟩
    · rw [Device.get_set_of_other]
      exact crc
    · rw [Device.get_set_of_other]
      exact al
    · rw [Device.get_set_self]
      exact bad
  · rw [if_pos le]
    refine ⟨v, ?_, ?_, .inr (.inl ?_)⟩
    · rw [Device.get_set_of_other]
      exact crc
    · rw [Device.get_set_of_other]
      exact al.imp id (List.mem_cons_of_mem _)
    · rw [Device.get_set_self]
      exact .inr List.mem_cons_self
  · rw [if_pos le]
    refine ⟨v.other, ?_, .inr ?_, .inr (.inl ?_)⟩
    · rw [Device.get_set_other, Device.get_set_self]
    · rw [Device.get_set_other, Device.get_set_self]
      exact List.mem_cons_self
    · rw [Which.other_other, Device.get_set_self]
      exact al.imp id (List.mem_cons_of_mem _)

/-- Every step keeps the invariant. -/
lemma Step.inv {sectLarger : Bool} {s s' : State α} (st : Step sectLarger s s') (iv : Inv s) :
    Inv s' := by
  obtain ⟨v, sd, up⟩ := iv
  cases st with
  | boot =>
    obtain ⟨w, e, sd'⟩ := sd.boot
    refine ⟨w, sd', ?_⟩
    intro u h
    simp only [envRelocateSpec, e] at h
    exact (Option.some.inj h).symm
  | @save u data h =>
    obtain rfl := up u h
    exact ⟨u.other, afterSave_sound sectLarger s.flash u data, fun w h => (Option.some.inj h).symm⟩
  | @cut u data ps rest d' h eq ct =>
    obtain rfl := up u h
    obtain ⟨w, sd'⟩ := ct.sound sd eq
    exact ⟨w, sd', nofun⟩

/-- The invariant holds along every run from a completed save. -/
lemma Run.inv {sectLarger : Bool} {s s' : State α} (run : Run sectLarger s s') (iv : Inv s) :
    Inv s' := by
  induction run with
  | refl => exact iv
  | tail _ st ih => exact st.inv ih

/-- Whatever is interrupted and whenever, a boot imports the environment of the last completed save
or one being written by a later save that was cut after its data were complete; it never falls
back to the default environment. -/
theorem Run.import_saved (sectLarger : Bool) (d : Device α) (v : Which) (data : α) {s : State α}
    (run : Run sectLarger (afterSave sectLarger d v data) s) :
    ∃ env, (envRelocateSpec s.flash).1 = .env env ∧ (env = s.last ∨ env ∈ s.later) := by
  have iv : Inv (afterSave sectLarger d v data) :=
    ⟨v.other, afterSave_sound sectLarger d v data, fun w h => (Option.some.inj h).symm⟩
  obtain ⟨w, sd, -⟩ := run.inv iv
  obtain ⟨u, e, sd'⟩ := sd.boot
  exact ⟨_, by rw [envRelocateSpec, e], sd'.allowed⟩

/-- The theorem at a save that is cut with both copies active: the boot after it finds the
environment that was being written. -/
theorem Run.import_saved_both_active :
    ∃ s : State Nat,
      Run true (afterSave true ⟨⟨0, 0xFF, false⟩, ⟨0, 0xFF, false⟩⟩ .first 1) s ∧
      s.later = [2] ∧ (envRelocateSpec s.flash).1 = .env 2 ∧
      ∃ env, (envRelocateSpec s.flash).1 = .env env ∧ (env = s.last ∨ env ∈ s.later) := by
  have cut : Step true (afterSave true ⟨⟨0, 0xFF, false⟩, ⟨0, 0xFF, false⟩⟩ .first 1) _ :=
    .cut rfl (show savePrims true .second 2 =
      [Prim.erase .first, .write .first 2] ++ [Prim.restore, .obsolete .second] from rfl) .between
  have run := (Run.refl.tail cut).tail .boot
  exact ⟨_, run, by decide, by decide, run.import_saved⟩

end Imx.Env.Sf
