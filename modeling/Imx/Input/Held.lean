import Imx.Input.Keyboard
import Mathlib.Data.List.Perm.Subperm

/-!
# The keys that are held

`sort_array_by_ordering` puts the keys that were held before in front, in their order
(`sortArrayByOrdering_eq`). From there `tracks_iff`: the keys that are held are those pressed and
not released as long as no more than five are pressed at a time. The list of keys is built in an
array of `INPUT_MAX_MODIFIERS + 1` elements, a bound on the tables.
-/

namespace Imx.Input

variable {config : Config} {keys held dest order : List Int} {now : BitVec 32} {n : Nat}

/-! ## Sorting -/

lemma moveLoop_eq (keep : Int → Bool) (keys : List Int)
    (room : n + (keys.filter keep).length ≤ dest.length) :
    moveLoop keep keys (dest, n) =
      some (dest.take n ++ keys.filter keep ++ dest.drop (n + (keys.filter keep).length),
        n + (keys.filter keep).length) := by
  induction keys generalizing dest n with
  | nil => simp [moveLoop]
  | cons key keys ih =>
    rw [moveLoop]
    cases kept : keep key with
    | false =>
      rw [List.filter_cons_of_neg (by simp [kept])] at room ⊢
      rw [if_neg (by simp)]
      exact ih room
    | true =>
      rw [List.filter_cons_of_pos kept] at room ⊢
      rw [List.length_cons] at room
      have lt : n < dest.length := by omega
      rw [if_pos rfl]
      dsimp only
      rw [put, if_pos lt, Option.bind_some, ih (by rw [List.length_set]; omega)]
      have front : (dest.set n key).take (n + 1) = dest.take n ++ [key] := by
        rw [List.take_set, List.take_succ_eq_append_getElem lt, List.set_append_right _ _ (by simp)]
        simp [List.length_take_of_le lt.le]
      have count : n + (key :: keys.filter keep).length = n + 1 + (keys.filter keep).length := by
        rw [List.length_cons]
        omega
      rw [front, count, List.drop_set_of_lt (by omega)]
      simp

/-- The keys that were held before, in their order, and then the new ones. -/
def sorted (keys order : List Int) : List Int :=
  order.filter (· ∈ keys) ++ keys.filter (· ∉ order)

lemma filter_perm (nodup : keys.Nodup) (nodup' : order.Nodup) :
    (order.filter (· ∈ keys)).Perm (keys.filter (· ∈ order)) := by
  rw [List.perm_ext_iff_of_nodup (nodup'.filter _) (nodup.filter _)]
  intro key
  simp [and_comm]

lemma sorted_perm (nodup : keys.Nodup) (nodup' : order.Nodup) :
    (sorted keys order).Perm keys := by
  rw [sorted]
  refine ((filter_perm nodup nodup').append_right _).trans ?_
  have all := List.filter_append_perm (fun key => decide (key ∈ order)) keys
  simpa using all

/-- The keys are sorted. -/
lemma sortArrayByOrdering_eq (nodup : keys.Nodup) (nodup' : order.Nodup) :
    sortArrayByOrdering keys order =
      some (sorted keys order, (order.filter (· ∈ keys)).length) := by
  have total := (sorted_perm nodup nodup').length_eq
  rw [sorted, List.length_append] at total
  have first : moveLoop (· ∈ keys) order (keys, 0) = _ :=
    moveLoop_eq (· ∈ keys) order (by omega)
  rw [List.take_zero, List.nil_append, Nat.zero_add] at first
  rw [sortArrayByOrdering]
  simp only [first, Option.bind_eq_bind, Option.bind_some]
  rw [moveLoop_eq (· ∉ order) keys (by rw [List.length_append, List.length_drop]; omega)]
  simp only [Option.bind_some, Option.some.injEq, Prod.mk.injEq, and_true]
  rw [List.take_left, total, List.drop_eq_nil_of_le, List.append_nil, sorted]
  rw [List.length_append, List.length_drop]
  omega

/-! ## What a call leaves as it is -/

/-- The indices of the queue are inside. -/
structure Ready (config : Config) : Prop where
  fifo : config.fifo.length = inputBufferLen
  fifoIn : config.fifoIn < inputBufferLen
  fifoOut : config.fifoOut < inputBufferLen

/-- Only the queue changes. -/
structure Queued (config config' : Config) : Prop where
  ready : Ready config'
  prevKeycodes : config'.prevKeycodes = config.prevKeycodes

lemma inputQueueAscii_ready (ch : Option UInt8) (ready : Ready config) :
    ∃ config', inputQueueAscii config ch = some config' ∧ Queued config config' := by
  have inside := ready.fifoIn
  have same : Queued config config := ⟨ready, rfl⟩
  have stored : ∀ i, i < inputBufferLen →
      Queued config { config with fifoIn := i, fifo := config.fifo.set i ch } := fun i lt =>
    ⟨⟨by rw [List.length_set, ready.fifo], lt, ready.fifoOut⟩, rfl⟩
  rw [inputQueueAscii, ready.fifo]
  dsimp only
  split
  case isTrue =>
    split
    · exact ⟨_, rfl, same⟩
    · exact ⟨_, if_pos (by decide), stored 0 (by decide)⟩
  case isFalse last =>
    have lt : config.fifoIn + 1 < inputBufferLen := by omega
    rw [if_pos lt]
    split
    · exact ⟨_, rfl, same⟩
    · exact ⟨_, rfl, stored _ lt⟩

lemma queueAll_ready (chs : List (Option UInt8)) (ready : Ready config) :
    ∃ config', queueAll config chs = some config' ∧ Queued config config' := by
  induction chs generalizing config with
  | nil => exact ⟨config, rfl, ready, rfl⟩
  | cons ch chs ih =>
    obtain ⟨config', eq, queued⟩ := inputQueueAscii_ready ch ready
    obtain ⟨config'', eq', queued'⟩ := ih queued.ready
    refine ⟨config'', ?_, queued'.ready, queued'.prevKeycodes.trans queued.prevKeycodes⟩
    rw [queueAll, List.foldlM_cons, eq]
    exact eq'

/-- Modifiers change only the lights. -/
lemma processModifier_lights (config : Config) (key : Int) (release : Bool) :
    ∃ flags leds ledsChanged,
    (processModifier config key release).2 =
      { config with flags := flags, leds := leds, ledsChanged := ledsChanged } := by
  unfold processModifier
  dsimp only
  split
  · split
    · exact ⟨_, _, _, rfl⟩
    · exact ⟨_, _, _, rfl⟩
  · exact ⟨_, _, _, rfl⟩

lemma modifierLoop_lights (keys : List Int) (table : KeyXlate) (config : Config) :
    ∃ flags leds ledsChanged,
    (modifierLoop keys table config).2 =
      { config with flags := flags, leds := leds, ledsChanged := ledsChanged } := by
  induction keys generalizing table config with
  | nil => exact ⟨_, _, _, rfl⟩
  | cons code keys ih =>
    rw [modifierLoop]
    dsimp only
    split
    · obtain ⟨flags, leds, ledsChanged, eq⟩ :=
        processModifier_lights config (code % 2 ^ 12).toNat (code / 2 ^ 15 % 2 ≠ 0)
      obtain ⟨flags', leds', ledsChanged', eq'⟩ :=
        ih (processModifier config (code % 2 ^ 12).toNat (code / 2 ^ 15 % 2 ≠ 0)).1
          (processModifier config (code % 2 ^ 12).toNat (code / 2 ^ 15 % 2 ≠ 0)).2
      rw [eq', eq]
      exact ⟨_, _, _, rfl⟩
    · exact ih table config

/-- A key code that is not negative has an entry in a table that reaches so far. -/
lemma convertLoop_inside (table : KeyXlate) (flags : UInt8) (n : Nat)
    (outputCh : List (Option UInt8)) (nonneg : ∀ key ∈ keys, 0 ≤ key) :
    ∃ r, convertLoop table flags keys n outputCh = some r := by
  induction keys generalizing n outputCh with
  | nil => exact ⟨_, rfl⟩
  | cons key keys ih =>
    obtain ⟨low, nonneg⟩ := List.forall_mem_cons.mp nonneg
    rw [convertLoop]
    split
    case isTrue lt =>
      have inside : key.toNat < table.xlate.length := by omega
      rw [entryAt, if_pos low, List.getElem?_eq_getElem inside]
      simp only [Option.bind_eq_bind, Option.bind_some]
      split
      · exact ih _ _ nonneg
      · exact ih _ _ nonneg
    case isFalse => exact ih _ _ nonneg

lemma inputKeycodesToAscii_inside (config : Config) (maxChars : Nat) {same : Nat}
    (nonneg : ∀ key ∈ keys.drop same, 0 ≤ key) :
    ∃ count ch config', inputKeycodesToAscii config keys maxChars same = some (count, ch, config') ∧
      config' = (modifierLoop keys config.table config).2 := by
  obtain ⟨⟨count, ch⟩, eq⟩ := convertLoop_inside (modifierLoop keys config.table config).1
    (modifierLoop keys config.table config).2.flags 0 (List.replicate maxChars none) nonneg
  rw [inputKeycodesToAscii]
  simp only [eq, Option.bind_eq_bind, Option.bind_some]
  split
  · exact ⟨_, _, _, rfl, rfl⟩
  · exact ⟨_, _, _, rfl, rfl⟩

/-! ## Sending -/

lemma inputCheckKeycodes_eq (nodup : keys.Nodup) (nodup' : config.prevKeycodes.Nodup) :
    inputCheckKeycodes config keys = if keys.length ≤ inputBufferLen then
      some (sorted keys config.prevKeycodes,
        (config.prevKeycodes.filter (· ∈ keys)).length,
        { config with prevKeycodes := sorted keys config.prevKeycodes })
    else none := by
  rw [inputCheckKeycodes, sortArrayByOrdering_eq nodup nodup']
  simp only [Option.bind_eq_bind, Option.bind_some, (sorted_perm nodup nodup').length_eq]

/-- Keys without a negative code are sent inside of all arrays, and are those that are held then. -/
lemma inputSendKeycodes_ready (now : BitVec 32) (doSend : Bool) (nodup : keys.Nodup)
    (nodup' : config.prevKeycodes.Nodup) (few : keys.length ≤ inputBufferLen)
    (nonneg : ∀ key ∈ keys, 0 ≤ key) (ready : Ready config) :
    ∃ ret config', inputSendKeycodes' config now keys doSend = some (ret, config') ∧
      Ready config' ∧ config'.prevKeycodes = sorted keys config.prevKeycodes := by
  rw [inputSendKeycodes', inputCheckKeycodes_eq nodup nodup', if_pos few]
  simp only [Option.bind_eq_bind, Option.bind_some]
  obtain ⟨c, eqc⟩ : ∃ c, c = { config with prevKeycodes := sorted keys config.prevKeycodes } :=
    ⟨_, rfl⟩
  have ready' : Ready c := by
    rw [eqc]
    exact ⟨ready.fifo, ready.fifoIn, ready.fifoOut⟩
  have prev : c.prevKeycodes = sorted keys config.prevKeycodes := by rw [eqc]
  rw [← eqc]
  split
  case isTrue => exact ⟨_, _, rfl, ready', prev⟩
  case isFalse =>
    have nonneg' : ∀ n, ∀ key ∈ (sorted keys config.prevKeycodes).drop n, 0 ≤ key :=
      fun n key mem => nonneg key ((sorted_perm nodup nodup').subset (List.mem_of_mem_drop mem))
    obtain ⟨count, ch, c', eq, lights⟩ := inputKeycodesToAscii_inside c
      (keys.length * ansiCharMax) (nonneg' _)
    obtain ⟨flags, leds, ledsChanged, same⟩ :=
      modifierLoop_lights (sorted keys config.prevKeycodes) c.table c
    rw [eq]
    simp only [Option.bind_some]
    have kept : Ready c' ∧ c'.prevKeycodes = sorted keys config.prevKeycodes := by
      rw [lights, same]
      exact ⟨⟨ready'.fifo, ready'.fifoIn, ready'.fifoOut⟩, prev⟩
    obtain ⟨c'', eq', queued⟩ := queueAll_ready (ch.take count.toNat) kept.1
    cases doSend with
    | true =>
      rw [if_pos rfl, eq']
      exact ⟨_, _, rfl, ⟨queued.ready.fifo, queued.ready.fifoIn, queued.ready.fifoOut⟩,
        queued.prevKeycodes.trans kept.2⟩
    | false => exact ⟨_, _, rfl, ⟨kept.1.fifo, kept.1.fifoIn, kept.1.fifoOut⟩, kept.2⟩

/-! ## Adding a key -/

lemma addLoop_release {codes : List Int} {key : Int}
    (room : keys.length + (codes.filter (· ≠ key)).length ≤ inputMaxModifiers + 1) :
    addLoop true codes key keys = some (key, keys ++ codes.filter (· ≠ key)) := by
  induction codes generalizing keys with
  | nil => simp [addLoop]
  | cons code codes ih =>
    rw [addLoop]
    by_cases same : key = code
    case pos =>
      rw [List.filter_cons_of_neg (by simp [same])] at room ⊢
      rw [if_pos ⟨same, rfl⟩]
      exact ih room
    case neg =>
      rw [List.filter_cons_of_pos (by simpa using Ne.symm same)] at room ⊢
      rw [List.length_cons] at room
      rw [if_neg (fun both => same both.1), if_neg same, append, if_pos (by omega)]
      simp only [Option.bind_eq_bind, Option.bind_some]
      rw [ih (by rw [List.length_append, List.length_singleton]; omega), List.append_assoc]
      rfl

lemma addLoop_press {codes : List Int} {key : Int} (nonneg : ∀ code ∈ codes, 0 ≤ code)
    (nodup : codes.Nodup) (room : keys.length + codes.length ≤ inputMaxModifiers + 1) :
    addLoop false codes key keys = some (if key ∈ codes then -1 else key, keys ++ codes) := by
  induction codes generalizing keys key with
  | nil => simp [addLoop]
  | cons code codes ih =>
    obtain ⟨low, nonneg⟩ := List.forall_mem_cons.mp nonneg
    obtain ⟨fresh, nodup⟩ := List.nodup_cons.mp nodup
    rw [List.length_cons] at room
    have lt : keys.length < inputMaxModifiers + 1 := by omega
    rw [addLoop, if_neg (show ¬(key = code ∧ false = true) by simp), append, if_pos lt]
    simp only [Option.bind_eq_bind, Option.bind_some]
    rw [ih nonneg nodup (by rw [List.length_append, List.length_singleton]; omega),
      List.append_assoc]
    have never : (-1 : Int) ∉ codes := fun mem => absurd (nonneg _ mem) (by decide)
    by_cases same : key = code
    · simp [same, never]
    · simp [same]

/-! ## A run -/

/-- A key is pressed or released, at some time. -/
structure Event where
  key : Int
  release : Bool
  now : BitVec 32

/-- The keys that are held behind an event, in the order of pressing. -/
def hold (held : List Int) (event : Event) : List Int :=
  if event.release then held.filter (· ≠ event.key)
  else if event.key ∈ held then held
  else held ++ [event.key]

/-- Behind each of the events `prev_keycodes` holds the keys that are held, and no access was
outside of an array. -/
def Tracks : Config → List Int → List Event → Prop
  | _, _, [] => True
  | config, held, event :: events =>
    ∃ ret config', inputAddKeycode config event.now event.key event.release = some (ret, config') ∧
      config'.prevKeycodes = hold held event ∧ Tracks config' (hold held event) events

/-- A key that is pressed has a code that is not negative, and is at most the fifth that is held. -/
def EventMeets (held : List Int) (event : Event) : Prop :=
  event.release ∨ event.key ∈ held ∨ 0 ≤ event.key ∧ held.length < inputMaxModifiers + 1

/-- All events do. -/
def AllMeet : List Int → List Event → Prop
  | _, [] => True
  | held, event :: events => EventMeets held event ∧ AllMeet (hold held event) events

/-- The keys that a keyboard holds. -/
structure Holding (config : Config) (held : List Int) : Prop where
  ready : Ready config
  prevKeycodes : config.prevKeycodes = held
  nodup : held.Nodup
  few : held.length ≤ inputMaxModifiers + 1
  nonneg : ∀ key ∈ held, 0 ≤ key

lemma Holding.next (holding : Holding config held) {event : Event} {config' : Config}
    (meets : EventMeets held event) (ready : Ready config')
    (prev : config'.prevKeycodes = hold held event) : Holding config' (hold held event) := by
  have nodup := holding.nodup
  have few := holding.few
  have nonneg := holding.nonneg
  refine ⟨ready, prev, ?_, ?_, ?_⟩
  all_goals
    rw [hold]
    split_ifs with release known
  · exact nodup.filter _
  · exact nodup
  · refine List.nodup_append.mpr ⟨nodup, List.pairwise_singleton _ _, fun a mem b one => ?_⟩
    rintro rfl
    exact known (List.mem_singleton.mp one ▸ mem)
  · exact (List.length_filter_le _ _).trans few
  · exact few
  · obtain pressed | held_ | ⟨-, lt⟩ := meets
    · exact absurd pressed release
    · exact absurd held_ known
    · rw [List.length_append]
      exact lt
  · exact fun key mem => nonneg key (List.mem_of_mem_filter mem)
  · exact nonneg
  · obtain pressed | held_ | ⟨low, -⟩ := meets
    · exact absurd pressed release
    · exact absurd held_ known
    · rw [List.forall_mem_append, List.forall_mem_singleton]
      exact ⟨nonneg, low⟩

/-- The keys that are sent are those that are held then. -/
lemma sorted_hold {event : Event} :
    sorted (hold held event) held = hold held event := by
  rw [sorted, hold]
  split_ifs with release known
  · have kept : held.filter (· ∈ held.filter (· ≠ event.key)) = held.filter (· ≠ event.key) := by
      refine List.filter_congr fun key mem => ?_
      simp [mem]
    have none : (held.filter (· ≠ event.key)).filter (· ∉ held) = [] := by
      refine List.filter_eq_nil_iff.mpr fun key mem => ?_
      simp [List.mem_of_mem_filter mem]
    rw [kept, none, List.append_nil]
  · have kept : held.filter (· ∈ held) = held := List.filter_eq_self.mpr (by simp)
    have none : held.filter (· ∉ held) = [] := List.filter_eq_nil_iff.mpr (by simp)
    rw [kept, none, List.append_nil]
  · have kept : held.filter (· ∈ held ++ [event.key]) = held :=
      List.filter_eq_self.mpr fun key mem => by simp [mem]
    have fresh : (held ++ [event.key]).filter (· ∉ held) = [event.key] := by
      have none : held.filter (· ∉ held) = [] := List.filter_eq_nil_iff.mpr (by simp)
      rw [List.filter_append, none, List.filter_cons_of_pos (by simpa using known)]
      rfl
    rw [kept, fresh]

/-- An event that is well sends the keys that are held then. -/
lemma inputAddKeycode_eq (holding : Holding config held) {event : Event}
    (meets : EventMeets held event) : inputAddKeycode config now event.key event.release =
      inputSendKeycodes' config now (hold held event) (!event.release) := by
  have few := holding.few
  rw [inputAddKeycode, holding.prevKeycodes, hold]
  cases release : event.release with
  | true =>
    have le := List.length_filter_le (· ≠ event.key) held
    rw [addLoop_release (by simpa using le.trans few)]
    rfl
  | false =>
    rw [addLoop_press holding.nonneg holding.nodup (by simpa using few)]
    by_cases known : event.key ∈ held
    case pos => simp [known]
    case neg =>
      obtain pressed | held_ | ⟨low, lt⟩ := meets
      · simp [release] at pressed
      · exact absurd held_ known
      · have ne : event.key ≠ -1 := by omega
        have le : held.length ≤ inputMaxModifiers := Nat.le_of_lt_succ lt
        simp [known, ne, append, lt, le]

lemma addKeycode_good (now : BitVec 32) (holding : Holding config held) {event : Event}
    (meets : EventMeets held event) : ∃ ret config',
      inputAddKeycode config now event.key event.release = some (ret, config') ∧
        Holding config' (hold held event) := by
  have placed : ∀ c, Ready c → c.prevKeycodes = hold held event → Holding c (hold held event) :=
    fun c ready prev => holding.next meets ready prev
  have self := placed { config with prevKeycodes := hold held event }
    ⟨holding.ready.fifo, holding.ready.fifoIn, holding.ready.fifoOut⟩ rfl
  have nodup' : config.prevKeycodes.Nodup := holding.prevKeycodes ▸ holding.nodup
  obtain ⟨ret, config', eq, ready, prev⟩ := inputSendKeycodes_ready now
    (!event.release) self.nodup nodup' (self.few.trans (by decide)) self.nonneg
    holding.ready
  rw [holding.prevKeycodes, sorted_hold] at prev
  exact ⟨ret, config', (inputAddKeycode_eq holding meets).trans eq, placed config' ready prev⟩

/-- A key with a negative code is looked up in front of the table. -/
lemma inputSendKeycodes_negative {key : Int} (holding : Holding config held)
    (few : held.length < inputMaxModifiers + 1) (fresh : key ∉ held) (neg : key < 0) :
    inputSendKeycodes' config now (held ++ [key]) true = none := by
  have known : hold held ⟨key, false, now⟩ = held ++ [key] := by simp [hold, fresh]
  have order : sorted (held ++ [key]) held = held ++ [key] := by
    have order := @sorted_hold held ⟨key, false, now⟩
    rwa [known] at order
  have kept : held.filter (· ∈ held ++ [key]) = held :=
    List.filter_eq_self.mpr fun k mem => by simp [mem]
  have nodup : (held ++ [key]).Nodup := by
    refine List.nodup_append.mpr ⟨holding.nodup, List.pairwise_singleton _ _, fun a mem b one => ?_⟩
    rintro rfl
    exact fresh (List.mem_singleton.mp one ▸ mem)
  have prev := holding.prevKeycodes
  have small : (held ++ [key]).length ≤ inputBufferLen := by
    rw [List.length_append]
    exact Nat.le_trans few (by decide)
  have more : ¬held.length = (held ++ [key]).length := by simp
  rw [inputSendKeycodes', inputCheckKeycodes_eq nodup (prev ▸ holding.nodup), if_pos small, prev,
    order, kept]
  simp only [Option.bind_eq_bind, Option.bind_some, more, decide_false, Bool.false_and, false_and,
    if_false, Bool.false_eq_true]
  have lt : ∀ table : KeyXlate, key < table.xlate.length := fun table => by omega
  rw [inputKeycodesToAscii]
  simp only [List.drop_left, convertLoop, lt, if_true, entryAt, if_neg (Int.not_le.mpr neg),
    Option.bind_eq_bind, Option.bind_none]

/-- A key that is not well is written outside of the array, looked up outside of the table, or not
added. -/
lemma addKeycode_bad (holding : Holding config held) {event : Event}
    (bad : ¬EventMeets held event) {ret : Int} {config' : Config}
    (eq : inputAddKeycode config now event.key event.release = some (ret, config')) :
    config'.prevKeycodes ≠ hold held event := by
  rw [EventMeets, not_or, not_or, not_and] at bad
  obtain ⟨pressed, fresh, over_⟩ := bad
  have few := holding.few
  rw [Bool.not_eq_true] at pressed
  rw [inputAddKeycode, holding.prevKeycodes, pressed,
    addLoop_press holding.nonneg holding.nodup (by simpa using few)] at eq
  simp only [fresh, if_false, Option.bind_eq_bind, Option.bind_some, List.nil_append] at eq
  have added : hold held event = held ++ [event.key] := by simp [hold, pressed, fresh]
  by_cases none_ : event.key = -1
  case pos =>
    -- the code that stands for no key is not added
    simp only [none_, Bool.not_false, ne_eq, not_true_eq_false, and_false, if_false,
      Option.bind_some] at eq
    have nodup' : config.prevKeycodes.Nodup := holding.prevKeycodes ▸ holding.nodup
    obtain ⟨ret', c, eq', -, prev⟩ := inputSendKeycodes_ready now true
      holding.nodup nodup' (few.trans (by decide)) holding.nonneg holding.ready
    cases eq.symm.trans eq'
    have len := (sorted_perm holding.nodup nodup').length_eq
    intro same
    rw [prev, added] at same
    rw [same, List.length_append, List.length_singleton] at len
    omega
  case neg =>
    simp only [Bool.not_false, ne_eq, none_, not_false_eq_true, and_self, if_true, append] at eq
    by_cases lt : held.length < inputMaxModifiers + 1
    case pos =>
      have neg : event.key < 0 := Int.not_le.mp fun low => over_ low lt
      rw [if_pos lt, Option.bind_some, inputSendKeycodes_negative holding lt fresh neg] at eq
      cases eq
    case neg =>
      rw [if_neg lt] at eq
      cases eq

/-- The keys are tracked exactly as long as no more than five are held, and no negative code is
pressed. -/
lemma tracks_iff {events : List Event} (holding : Holding config held) :
    Tracks config held events ↔ AllMeet held events := by
  induction events generalizing config held with
  | nil => exact Iff.rfl
  | cons event events ih =>
    rw [Tracks, AllMeet]
    constructor
    case mp =>
      rintro ⟨ret, config', eq, prev, tracks⟩
      have meets : EventMeets held event := by
        by_contra bad
        exact addKeycode_bad holding bad eq prev
      obtain ⟨ret', c, eq', holding'⟩ := addKeycode_good event.now holding meets
      cases eq.symm.trans eq'
      exact ⟨meets, (ih holding').mp tracks⟩
    case mpr =>
      rintro ⟨meets, rest⟩
      obtain ⟨ret, config', eq, holding'⟩ := addKeycode_good event.now holding meets
      exact ⟨ret, config', eq, holding'.prevKeycodes, (ih holding').mpr rest⟩

end Imx.Input
