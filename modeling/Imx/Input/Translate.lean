import Imx.Input.Held

/-!
# What new keys send

`translation` is what a key is to send: the character of the table, and the escape sequence of a key
that has none. The code writes an escape sequence to the start of its buffer, whatever stands there,
and looks for one only behind the end of the table. `sends_iff` is when the characters that are
queued are the translations of the new keys.
-/

namespace Imx.Input

variable {config : Config} {keys new : List Int} {now : BitVec 32} {n : Nat}

/-! ## The queue -/

/-- The number of characters that are queued. -/
def waiting (config : Config) : Nat :=
  (config.fifoIn + inputBufferLen - config.fifoOut) % inputBufferLen

/-- The element of the queue array where a character stands. -/
def slot (config : Config) (i : Nat) : Nat :=
  (config.fifoOut + 1 + i) % inputBufferLen

/-- The characters that are queued. -/
def queue (config : Config) : List (Option UInt8) :=
  (List.range (waiting config)).map fun i => config.fifo.getD (slot config i) none

lemma length_queue (config : Config) : (queue config).length = waiting config := by
  rw [queue, List.length_map, List.length_range]

/-- A character in the next element stands behind the others. -/
lemma queue_next {ch : Option UInt8} {i : Nat} (ready : Ready config)
    (next : i = (config.fifoIn + 1) % inputBufferLen)
    (room : waiting config + 1 < inputBufferLen) :
    queue { config with fifoIn := i, fifo := config.fifo.set i ch } = queue config ++ [ch] := by
  obtain ⟨fifo, inside, inside'⟩ := ready
  have more : waiting { config with fifoIn := i, fifo := config.fifo.set i ch } =
      waiting config + 1 := by
    simp only [waiting, inputBufferLen] at *
    omega
  have last : slot config (waiting config) = i := by
    simp only [slot, waiting, inputBufferLen] at *
    omega
  have front : ∀ j < waiting config, slot config j ≠ i := fun j lt => by
    simp only [slot, waiting, inputBufferLen] at *
    omega
  have lt : i < config.fifo.length := by
    rw [next, fifo]
    exact Nat.mod_lt _ (by decide)
  rw [queue, more, List.range_succ, List.map_append, queue]
  congr 1
  · refine List.map_congr_left fun j mem => ?_
    rw [List.getD_eq_getElem?_getD, List.getD_eq_getElem?_getD]
    exact congrArg (Option.getD · none)
      (List.getElem?_set_ne (front j (List.mem_range.mp mem)).symm)
  · have there : slot { config with fifoIn := i, fifo := config.fifo.set i ch }
        (waiting config) = i := last
    rw [List.map_singleton, there, List.getD_eq_getElem?_getD, List.getElem?_set_self lt]
    rfl

/-- A character that finds room is queued behind the others. -/
lemma inputQueueAscii_queue (ch : Option UInt8) (ready : Ready config)
    (room : (queue config).length + 1 < inputBufferLen) :
    ∃ config', inputQueueAscii config ch = some config' ∧ queue config' = queue config ++ [ch] ∧
      Ready config' := by
  rw [length_queue] at room
  have fifo := ready.fifo
  have inside := ready.fifoIn
  have inside' := ready.fifoOut
  have stored : ∀ i, i = (config.fifoIn + 1) % inputBufferLen →
      Ready { config with fifoIn := i, fifo := config.fifo.set i ch } := fun i next =>
    ⟨by rw [List.length_set, fifo], next ▸ Nat.mod_lt _ (by decide), inside'⟩
  have full : ¬(config.fifoIn + 1) % inputBufferLen = config.fifoOut := by
    simp only [waiting, inputBufferLen] at *
    omega
  rw [inputQueueAscii, fifo]
  dsimp only
  by_cases last : config.fifoIn + 1 = inputBufferLen
  case pos =>
    rw [last, Nat.mod_self] at full
    have next : 0 = (config.fifoIn + 1) % inputBufferLen := by rw [last, Nat.mod_self]
    rw [if_pos last, if_neg (Ne.symm full), if_pos (by decide)]
    exact ⟨_, rfl, queue_next ready next room, stored 0 next⟩
  case neg =>
    have lt : config.fifoIn + 1 < inputBufferLen := by omega
    rw [Nat.mod_eq_of_lt lt] at full
    rw [if_neg last, if_neg full, if_pos lt]
    have next := (Nat.mod_eq_of_lt lt).symm
    exact ⟨_, rfl, queue_next ready next room, stored _ next⟩

lemma queueAll_queue (chs : List (Option UInt8)) (ready : Ready config)
    (room : (queue config).length + chs.length < inputBufferLen) :
    ∃ config', queueAll config chs = some config' ∧ queue config' = queue config ++ chs := by
  induction chs generalizing config with
  | nil => exact ⟨config, rfl, (List.append_nil _).symm⟩
  | cons ch chs ih =>
    rw [List.length_cons] at room
    obtain ⟨config', eq, queued, ready'⟩ := inputQueueAscii_queue ch ready (by omega)
    obtain ⟨config'', eq', queued'⟩ := ih ready' (by
      rw [queued, List.length_append, List.length_singleton]
      omega)
    refine ⟨config'', ?_, ?_⟩
    · rw [queueAll, List.foldlM_cons, eq]
      exact eq'
    · rw [queued', queued, List.append_assoc]
      rfl

/-! ## Translation -/

/-- The character of a key, if it has one. -/
def charAt (table : KeyXlate) (flags : UInt8) (key : Int) : Option UInt8 :=
  ((entryAt table key).map (charOf flags key)).filter (· ≠ noChar)

/-- What a key is to send. -/
def translation (table : KeyXlate) (flags : UInt8) (key : Int) : List UInt8 :=
  match charAt table flags key with
  | some ch => [ch]
  | none => escapeOf key

/-- The escape sequences are at the start: a key that has one is behind the end of the table, and no
character is in front of it. -/
def InFront (table : KeyXlate) (flags : UInt8) : Nat → List Int → Prop
  | _, [] => True
  | n, key :: keys =>
    (charAt table flags key = none → escapeOf key ≠ [] → table.xlate.length ≤ key ∧ n = 0) ∧
      InFront table flags (n + (translation table flags key).length) keys

section Convert

variable {table : KeyXlate} {flags : UInt8} {outputCh : List (Option UInt8)} {key : Int}

/-- There are escape sequences of three characters only. -/
lemma escapeOf_length (key : Int) :
    escapeOf key = [] ∨ (escapeOf key).length = ansiCharMax := by
  rw [escapeOf, kbdToAnsi364]
  simp only [List.lookup_cons, List.lookup_nil]
  split
  · exact .inr rfl
  split
  · exact .inr rfl
  split
  · exact .inr rfl
  split
  · exact .inr rfl
  · exact .inl rfl

lemma charAt_outside (far : table.xlate.length ≤ key) : charAt table flags key = none := by
  have entry : entryAt table key = none := by
    rw [entryAt]
    split
    · exact List.getElem?_eq_none (by omega)
    · rfl
  rw [charAt, entry]
  rfl

lemma translation_char {ch : UInt8} (char : charAt table flags key = some ch) :
    translation table flags key = [ch] := by
  rw [translation, char]

lemma translation_none (none_ : charAt table flags key = none) :
    translation table flags key = escapeOf key := by
  rw [translation, none_]

lemma translation_length (table : KeyXlate) (flags : UInt8) (key : Int) :
    (translation table flags key).length ≤ ansiCharMax := by
  cases char : charAt table flags key with
  | some ch =>
    rw [translation_char char]
    exact (by decide : 1 ≤ ansiCharMax)
  | none =>
    rw [translation_none char]
    obtain nil | three := escapeOf_length key
    · rw [nil]
      exact Nat.zero_le _
    · exact three.le

lemma translations_length (table : KeyXlate) (flags : UInt8) (keys : List Int) :
    (keys.flatMap (translation table flags)).length ≤ ansiCharMax * keys.length := by
  induction keys with
  | nil => exact le_rfl
  | cons key keys ih =>
    have le := translation_length table flags key
    rw [List.flatMap_cons, List.length_append, List.length_cons, Nat.mul_succ]
    omega

/-- A key with a character. -/
lemma convertLoop_char {ch : UInt8} (char : charAt table flags key = some ch)
    (room : n < outputCh.length) :
    convertLoop table flags (key :: keys) n outputCh =
      convertLoop table flags keys (n + 1) (outputCh.set n (some ch)) := by
  have near : key < table.xlate.length := by
    by_contra far
    rw [charAt_outside (by omega)] at char
    cases char
  rw [charAt, Option.filter_eq_some_iff] at char
  obtain ⟨entry, shown⟩ := char
  obtain ⟨entry, eq, rfl⟩ := Option.map_eq_some_iff.mp entry
  rw [convertLoop, if_pos near, eq]
  simp only [Option.bind_eq_bind, Option.bind_some]
  rw [if_pos ⟨room, by simpa using shown⟩]

/-- A key of the table without a character. -/
lemma convertLoop_skip (low : 0 ≤ key) (near : key < table.xlate.length)
    (none_ : charAt table flags key = none) :
    convertLoop table flags (key :: keys) n outputCh = convertLoop table flags keys n outputCh := by
  have inside : key.toNat < table.xlate.length := by omega
  rw [charAt, entryAt, if_pos low, List.getElem?_eq_getElem inside, Option.map_some,
    Option.filter_eq_none_iff] at none_
  have hidden := none_ _ rfl
  rw [convertLoop, if_pos near, entryAt, if_pos low, List.getElem?_eq_getElem inside]
  simp only [Option.bind_eq_bind, Option.bind_some]
  rw [if_neg fun shown => hidden (by simpa using shown.2)]

/-- A key that is not in the table. -/
lemma convertLoop_far (far : table.xlate.length ≤ key) :
    convertLoop table flags (key :: keys) n outputCh =
      convertLoop table flags keys (n + (escapeOf key).length)
        (((escapeOf key).take outputCh.length).map some ++
          outputCh.drop (escapeOf key).length) := by
  rw [convertLoop, if_neg (Int.not_lt.mpr far)]
  rfl

/-- A key that sends nothing. -/
lemma convertLoop_nothing (low : 0 ≤ key) (none_ : charAt table flags key = none)
    (nil : escapeOf key = []) :
    convertLoop table flags (key :: keys) n outputCh = convertLoop table flags keys n outputCh := by
  by_cases near : key < table.xlate.length
  case pos => exact convertLoop_skip low near none_
  case neg =>
    rw [convertLoop_far (Int.not_lt.mp near), nil]
    simp

/-- A key with a negative code is looked up in front of the table. -/
lemma convertLoop_negative (mem : key ∈ keys) (neg : key < 0) :
    convertLoop table flags keys n outputCh = none := by
  induction keys generalizing n outputCh with
  | nil => cases mem
  | cons first keys ih =>
    rw [convertLoop]
    obtain rfl | mem := List.mem_cons.mp mem
    case inl =>
      rw [if_pos (by omega), entryAt, if_neg (Int.not_le.mpr neg)]
      rfl
    case inr =>
      split
      case isTrue =>
        cases entryAt table first with
        | none => rfl
        | some entry =>
          simp only [Option.bind_eq_bind, Option.bind_some]
          split
          · exact ih mem
          · exact ih mem
      case isFalse => exact ih mem

/-- The buffer behind an escape sequence. -/
lemma escape_out (outputCh : List (Option UInt8)) (three : (escapeOf key).length = ansiCharMax)
    (room : ansiCharMax ≤ outputCh.length) :
    let outputCh' :=
      ((escapeOf key).take outputCh.length).map some ++ outputCh.drop (escapeOf key).length
    outputCh'.length = outputCh.length ∧ ∀ i, ansiCharMax ≤ i → outputCh'[i]? = outputCh[i]? := by
  have whole : (escapeOf key).take outputCh.length = escapeOf key :=
    List.take_of_length_le (three ▸ room)
  dsimp only
  rw [whole]
  constructor
  · rw [List.length_append, List.length_map, List.length_drop]
    omega
  · intro i behind
    rw [List.getElem?_append_right (by rw [List.length_map]; omega), List.length_map,
      List.getElem?_drop, Nat.add_sub_cancel' (by omega)]

/-- The loop ends inside of the buffer, and does not go back behind the first escape sequence. -/
lemma convertLoop_frame (table : KeyXlate) (flags : UInt8) (nonneg : ∀ key ∈ keys, 0 ≤ key)
    (room : n + ansiCharMax * keys.length ≤ outputCh.length) :
    ∃ n' outputCh', convertLoop table flags keys n outputCh = some (n', outputCh') ∧
      n ≤ n' ∧ n' ≤ n + (keys.flatMap (translation table flags)).length ∧
      outputCh'.length = outputCh.length ∧
      ∀ i, ansiCharMax ≤ i → i < n → outputCh'[i]? = outputCh[i]? := by
  induction keys generalizing n outputCh with
  | nil => exact ⟨n, outputCh, rfl, le_rfl, le_rfl, rfl, fun _ _ _ => rfl⟩
  | cons key keys ih =>
    obtain ⟨low, nonneg⟩ := List.forall_mem_cons.mp nonneg
    rw [List.length_cons, Nat.mul_succ] at room
    have three : ansiCharMax = 3 := rfl
    rw [List.flatMap_cons, List.length_append]
    cases char : charAt table flags key with
    | some ch =>
      rw [convertLoop_char char (by omega), translation_char char]
      obtain ⟨n', out', eq, le, le', len, kept⟩ := @ih (n + 1)
        (outputCh.set n (some ch)) nonneg (by rw [List.length_set]; omega)
      refine ⟨n', out', eq, by omega, ?_, by rw [len, List.length_set], fun i behind lt => ?_⟩
      · rw [List.length_singleton]
        omega
      · rw [kept i behind (by omega), List.getElem?_set_ne (by omega)]
    | none =>
      rw [translation_none char]
      by_cases near : key < table.xlate.length
      case pos =>
        rw [convertLoop_skip low near char]
        obtain ⟨n', out', eq, le, le', same⟩ := @ih n outputCh nonneg (by omega)
        exact ⟨n', out', eq, le, by omega, same⟩
      case neg =>
        obtain nil | len := escapeOf_length key
        case inl =>
          rw [convertLoop_nothing low char nil, nil]
          obtain ⟨n', out', eq, le, le', same⟩ := @ih n outputCh nonneg (by omega)
          exact ⟨n', out', eq, le, by omega, same⟩
        case inr =>
          rw [convertLoop_far (Int.not_lt.mp near)]
          obtain ⟨same, behind⟩ := escape_out outputCh len (by omega)
          obtain ⟨n', out', eq, le, le', len', kept⟩ := ih nonneg
            (n := n + (escapeOf key).length) (by rw [same]; omega)
          refine ⟨n', out', eq, by omega, by omega, len'.trans same, fun i far lt => ?_⟩
          rw [kept i far (by omega), behind i far]

/-- Keys that are well are translated. -/
lemma convertLoop_good {chs : List UInt8} {m : Nat} (nonneg : ∀ key ∈ keys, 0 ≤ key)
    (front : InFront table flags chs.length keys) (room : ansiCharMax * keys.length ≤ m) :
    ∃ m', convertLoop table flags keys chs.length (chs.map some ++ List.replicate m none) =
      some ((chs ++ keys.flatMap (translation table flags)).length,
        (chs ++ keys.flatMap (translation table flags)).map some ++ List.replicate m' none) := by
  induction keys generalizing chs m with
  | nil => exact ⟨m, by simp [convertLoop]⟩
  | cons key keys ih =>
    obtain ⟨low, nonneg⟩ := List.forall_mem_cons.mp nonneg
    obtain ⟨special, front⟩ := front
    rw [List.length_cons, Nat.mul_succ] at room
    have three : ansiCharMax = 3 := rfl
    rw [List.flatMap_cons]
    cases char : charAt table flags key with
    | some ch =>
      rw [translation_char char] at front ⊢
      obtain ⟨m, rfl⟩ : ∃ k, m = k + 1 := ⟨m - 1, by omega⟩
      have stored : (chs.map some ++ List.replicate (m + 1) none).set chs.length (some ch) =
          (chs ++ [ch]).map some ++ List.replicate m none := by
        rw [List.set_append_right _ _ (by simp)]
        simp [List.replicate_succ]
      rw [convertLoop_char char (by simp), stored, ← List.append_assoc]
      have next := @ih (chs ++ [ch]) m nonneg
        (by rw [List.length_append]; exact front) (by omega)
      rwa [List.length_append, List.length_singleton] at next
    | none =>
      rw [translation_none char] at front ⊢
      obtain nil | len := escapeOf_length key
      case inl =>
        rw [nil] at front ⊢
        rw [List.nil_append, convertLoop_nothing low char nil]
        exact ih nonneg front (by omega)
      case inr =>
        have some_ : escapeOf key ≠ [] := fun nil => by simp [nil, three] at len
        obtain ⟨far, zero⟩ := special char some_
        obtain rfl := List.eq_nil_of_length_eq_zero zero
        have out : ((escapeOf key).take
            ([].map some ++ List.replicate m (none : Option UInt8)).length).map some ++
              ([].map some ++ List.replicate m none).drop (escapeOf key).length =
                (escapeOf key).map some ++ List.replicate (m - ansiCharMax) none := by
          rw [List.take_of_length_le (by simp; omega), len]
          simp
        rw [convertLoop_far far, out]
        have next := @ih (escapeOf key) (m - ansiCharMax) nonneg
          (by simpa using front) (by omega)
        simpa using next

/-- Keys that are not leave a gap in the buffer, or are not all sent. -/
lemma convertLoop_bad (nonneg : ∀ key ∈ keys, 0 ≤ key) (bad : ¬InFront table flags n keys)
    (room : n + ansiCharMax * keys.length ≤ outputCh.length)
    (fresh : ∀ i, n ≤ i → i < outputCh.length → outputCh[i]? = some none) :
    ∃ n' outputCh', convertLoop table flags keys n outputCh = some (n', outputCh') ∧
      (n' < n + (keys.flatMap (translation table flags)).length ∨
        ∃ i < n', outputCh'[i]? = some none) := by
  induction keys generalizing n outputCh with
  | nil => exact absurd trivial bad
  | cons key keys ih =>
    obtain ⟨low, nonneg⟩ := List.forall_mem_cons.mp nonneg
    rw [List.length_cons, Nat.mul_succ] at room
    have three : ansiCharMax = 3 := rfl
    rw [List.flatMap_cons, List.length_append]
    rw [InFront] at bad
    cases char : charAt table flags key with
    | some ch =>
      have rest : ¬InFront table flags (n + 1) keys := fun front =>
        bad ⟨fun no => (nomatch char.symm.trans no), by rwa [translation_char char]⟩
      rw [convertLoop_char char (by omega), translation_char char, List.length_singleton]
      obtain ⟨n', out', eq, lost⟩ := @ih (n + 1) (outputCh.set n (some ch)) nonneg rest
        (by rw [List.length_set]; omega) (fun i le lt => by
          rw [List.length_set] at lt
          rw [List.getElem?_set_ne (by omega), fresh i (by omega) lt])
      exact ⟨n', out', eq, lost.imp (fun lt => by omega) id⟩
    | none =>
      rw [translation_none char] at bad ⊢
      obtain nil | len := escapeOf_length key
      case inl =>
        have rest : ¬InFront table flags n keys := fun front =>
          bad ⟨fun _ some_ => absurd nil some_, by simpa [nil] using front⟩
        rw [convertLoop_nothing low char nil, nil]
        obtain ⟨n', out', eq, lost⟩ := ih nonneg rest (by omega) fresh
        exact ⟨n', out', eq, lost.imp (fun lt => by simpa using lt) id⟩
      case inr =>
        by_cases near : key < table.xlate.length
        case pos =>
          -- the escape sequence is not looked for
          rw [convertLoop_skip low near char]
          obtain ⟨n', out', eq, -, le, -⟩ := @convertLoop_frame _ n outputCh table flags nonneg
            (by omega)
          exact ⟨n', out', eq, .inl (by omega)⟩
        case neg =>
          obtain ⟨same, behind⟩ := escape_out outputCh len (by omega)
          rw [convertLoop_far (Int.not_lt.mp near)]
          by_cases zero : n = 0
          case pos =>
            have rest : ¬InFront table flags (n + (escapeOf key).length) keys := fun front =>
              bad ⟨fun _ _ => ⟨Int.not_lt.mp near, zero⟩, front⟩
            obtain ⟨n', out', eq, lost⟩ := ih nonneg rest (by rw [same]; omega) (fun i le lt => by
              rw [same] at lt
              rw [behind i (by omega), fresh i (by omega) lt])
            exact ⟨n', out', eq, lost.imp (fun lt => by omega) id⟩
          case neg =>
            -- nothing is written where the sequence is to stand
            obtain ⟨n', out', eq, le, -, -, kept⟩ := @convertLoop_frame _
              (n + (escapeOf key).length) _ table flags nonneg (by rw [same]; omega)
            refine ⟨n', out', eq, .inr ⟨n + 2, by omega, ?_⟩⟩
            rw [kept (n + 2) (by omega) (by omega), behind (n + 2) (by omega),
              fresh (n + 2) (by omega) (by omega)]

end Convert

/-! ## Sending -/

/-- The state when the keys are checked. -/
def checked (config : Config) (keys : List Int) : Config :=
  { config with prevKeycodes := sorted keys config.prevKeycodes }

/-- The table for some keys, and the state then. -/
def modified (config : Config) (keys : List Int) : KeyXlate × Config :=
  modifierLoop (sorted keys config.prevKeycodes) config.table (checked config keys)

/-- The keys that were not held before. -/
def newKeys (config : Config) (keys : List Int) : List Int :=
  keys.filter (· ∉ config.prevKeycodes)

/-- What the new keys are to send. -/
def translations (config : Config) (keys : List Int) : List UInt8 :=
  (newKeys config keys).flatMap
    (translation (modified config keys).1 (modified config keys).2.flags)

/-- The translations of the new keys are queued behind the others. -/
def Sends (config : Config) (now : BitVec 32) (keys : List Int) : Prop :=
  ∃ ret config', inputSendKeycodes config now keys = some (ret, config') ∧
    queue config' = queue config ++ (translations config keys).map some

/-- At most sixteen keys are down, no new one has a negative code, and the escape sequences are at
the start. -/
structure SendMeets (config : Config) (keys : List Int) : Prop where
  few : keys.length ≤ inputBufferLen
  nonneg : ∀ key ∈ newKeys config keys, 0 ≤ key
  front : InFront (modified config keys).1 (modified config keys).2.flags 0 (newKeys config keys)

lemma modified_lights (config : Config) (keys : List Int) :
    ∃ flags leds ledsChanged, (modified config keys).2 =
      { checked config keys with flags := flags, leds := leds, ledsChanged := ledsChanged } :=
  modifierLoop_lights _ _ _

lemma modified_ready (ready : Ready config) : Ready (modified config keys).2 := by
  obtain ⟨flags, leds, ledsChanged, eq⟩ := modified_lights config keys
  rw [eq]
  exact ⟨ready.fifo, ready.fifoIn, ready.fifoOut⟩

lemma queue_modified : queue (modified config keys).2 = queue config := by
  obtain ⟨flags, leds, ledsChanged, eq⟩ := modified_lights config keys
  rw [eq]
  rfl

/-- The keys held before stand in front of the new ones. -/
lemma drop_sorted : (sorted keys config.prevKeycodes).drop
    (config.prevKeycodes.filter (· ∈ keys)).length = newKeys config keys := by
  rw [sorted, List.drop_left, newKeys]

lemma length_newKeys (nodup : keys.Nodup) (nodup' : config.prevKeycodes.Nodup) :
    (config.prevKeycodes.filter (· ∈ keys)).length + (newKeys config keys).length =
      keys.length := by
  have total := (sorted_perm nodup nodup').length_eq
  rwa [sorted, List.length_append] at total

/-- Nothing is sent without a new key. -/
lemma inputSendKeycodes_same (nodup : keys.Nodup) (nodup' : config.prevKeycodes.Nodup)
    (few : keys.length ≤ inputBufferLen) (quiet : repeatDue config now = false)
    (nil : newKeys config keys = []) :
    inputSendKeycodes config now keys = some (0, checked config keys) := by
  have same := length_newKeys nodup nodup'
  rw [nil, List.length_nil, Nat.add_zero] at same
  have quiet' : repeatDue (checked config keys) now = false := quiet
  rw [checked] at quiet'
  rw [inputSendKeycodes, inputSendKeycodes', inputCheckKeycodes_eq nodup nodup', if_pos few]
  simp only [Option.bind_eq_bind, Option.bind_some, (sorted_perm nodup nodup').length_eq, same,
    quiet', Bool.and_false, and_self, if_true]
  rfl

/-- What is sent when a key is new: the buffer is queued. -/
lemma inputSendKeycodes_new (nodup : keys.Nodup) (nodup' : config.prevKeycodes.Nodup)
    (few : keys.length ≤ inputBufferLen) (some_ : newKeys config keys ≠ []) :
    inputSendKeycodes config now keys =
      (convertLoop (modified config keys).1 (modified config keys).2.flags (newKeys config keys) 0
        (List.replicate (keys.length * ansiCharMax) none)).bind fun r =>
      let count : Int := if r.1 > keys.length * ansiCharMax then -1 else r.1
      (queueAll (modified config keys).2 (r.2.take count.toNat)).map fun config' =>
        (count, { config' with nextRepeatMs := now + config'.repeatDelayMs }) := by
  have total := length_newKeys nodup nodup'
  have pos := List.length_pos_iff.mpr some_
  have more : ¬(config.prevKeycodes.filter (· ∈ keys)).length = keys.length := by omega
  rw [inputSendKeycodes, inputSendKeycodes', inputCheckKeycodes_eq nodup nodup', if_pos few]
  simp only [Option.bind_eq_bind, Option.bind_some, (sorted_perm nodup nodup').length_eq, more,
    decide_false, Bool.false_and, false_and, if_false, Bool.false_eq_true, inputKeycodesToAscii,
    drop_sorted, if_true]
  rw [modified, checked]
  cases convertLoop _ _ (newKeys config keys) 0 _ with
  | none => rfl
  | some r =>
    simp only [Option.bind_some, Option.map_eq_bind]
    split
    · rfl
    · rfl

/-- The translations of the new keys are queued exactly if the keys are well. -/
lemma sends_iff (ready : Ready config) (nodup : keys.Nodup) (nodup' : config.prevKeycodes.Nodup)
    (quiet : repeatDue config now = false)
    (room : (queue config).length + (translations config keys).length < inputBufferLen) :
    Sends config now keys ↔ SendMeets config keys := by
  by_cases few : keys.length ≤ inputBufferLen
  case neg =>
    refine iff_of_false ?_ fun meets => few meets.few
    rintro ⟨ret, config', eq, -⟩
    rw [inputSendKeycodes, inputSendKeycodes', inputCheckKeycodes_eq nodup nodup', if_neg few] at eq
    cases eq
  by_cases nil : newKeys config keys = []
  case pos =>
    have none_ : translations config keys = [] := by rw [translations, nil, List.flatMap_nil]
    refine iff_of_true ⟨0, checked config keys, ?_, ?_⟩ ⟨few, ?_, ?_⟩
    · exact inputSendKeycodes_same nodup nodup' few quiet nil
    · rw [none_, List.map_nil, List.append_nil]
      rfl
    · simp [nil]
    · rw [nil]
      trivial
  rw [Sends, inputSendKeycodes_new nodup nodup' few nil]
  by_cases nonneg : ∀ key ∈ newKeys config keys, 0 ≤ key
  case neg =>
    refine iff_of_false ?_ fun meets => nonneg meets.nonneg
    push Not at nonneg
    obtain ⟨key, mem, neg⟩ := nonneg
    rw [convertLoop_negative mem neg]
    rintro ⟨ret, config', eq, -⟩
    cases eq
  have size : ansiCharMax * (newKeys config keys).length ≤ keys.length * ansiCharMax := by
    rw [Nat.mul_comm]
    exact Nat.mul_le_mul_right _ (List.length_filter_le _ _)
  have ready' := @modified_ready config keys ready
  have fits : 0 + ansiCharMax * (newKeys config keys).length ≤
      (List.replicate (keys.length * ansiCharMax) (none : Option UInt8)).length := by
    rw [List.length_replicate, Nat.zero_add]
    exact size
  have fresh : ∀ i, 0 ≤ i →
      i < (List.replicate (keys.length * ansiCharMax) (none : Option UInt8)).length →
      (List.replicate (keys.length * ansiCharMax) (none : Option UInt8))[i]? = some none :=
    fun i _ lt => List.getElem?_replicate_of_lt (by rwa [List.length_replicate] at lt)
  by_cases front : InFront (modified config keys).1 (modified config keys).2.flags 0
      (newKeys config keys)
  case pos =>
    refine iff_of_true ?_ ⟨few, nonneg, front⟩
    obtain ⟨m, eq⟩ := @convertLoop_good _ _ _ [] _ nonneg front size
    have inside := Nat.not_lt.mpr ((translations_length (modified config keys).1
      (modified config keys).2.flags (newKeys config keys)).trans size)
    obtain ⟨c, queued, eq'⟩ := queueAll_queue ((translations config keys).map some)
      ready' (by rw [queue_modified, List.length_map]; exact room)
    rw [List.map_nil, List.nil_append, List.nil_append, List.length_nil] at eq
    refine ⟨(translations config keys).length,
      { c with nextRepeatMs := now + c.repeatDelayMs }, ?_, ?_⟩
    · rw [eq, Option.bind_some]
      dsimp only
      rw [if_neg inside, Int.toNat_natCast, List.take_left' (by rw [List.length_map])]
      exact congrArg (Option.map _) queued
    · rw [queue_modified] at eq'
      exact eq'
  case neg =>
    refine iff_of_false ?_ fun meets => front meets.front
    rintro ⟨ret, config', sent, same⟩
    obtain ⟨n', out', eq, lost⟩ := convertLoop_bad nonneg front fits fresh
    obtain ⟨_, _, eq', -, le, -⟩ := convertLoop_frame (modified config keys).1
      (modified config keys).2.flags nonneg fits
    cases eq.symm.trans eq'
    rw [Nat.zero_add] at le lost
    have inside := Nat.not_lt.mpr (le.trans ((translations_length (modified config keys).1
      (modified config keys).2.flags (newKeys config keys)).trans size))
    obtain ⟨c, queued, eq''⟩ := queueAll_queue (out'.take n') ready' (by
      rw [queue_modified, List.length_take]
      exact (Nat.add_le_add_left ((min_le_left _ _).trans le) _).trans_lt room)
    rw [eq, Option.bind_some] at sent
    dsimp only at sent
    rw [if_neg inside, Int.toNat_natCast, queued, Option.map_some, Option.some.injEq,
      Prod.mk.injEq] at sent
    have equal : out'.take n' = (translations config keys).map some := by
      have behind : queue config' = queue c := by
        rw [← sent.2]
        rfl
      rw [behind, eq'', queue_modified] at same
      exact List.append_cancel_left same
    obtain lt | ⟨i, lt, gap⟩ := lost
    · have short := congrArg List.length equal
      rw [List.length_map, List.length_take] at short
      have least := min_le_left n' out'.length
      rw [short] at least
      exact absurd lt (Nat.not_lt.mpr least)
    · have there : (out'.take n')[i]? = ((translations config keys).map some)[i]? := by rw [equal]
      rw [List.getElem?_take_of_lt lt, gap, List.getElem?_map] at there
      obtain ⟨ch, -, eq⟩ := Option.map_eq_some_iff.mp there.symm
      cases eq

/-! ## The keyboard -/

/-- The keys that are held are tracked exactly as long as no more than five are held at a time and
no negative code is pressed, and new keys send their translations exactly if `SendMeets` holds of
them. -/
theorem keyboard_iff {config : Config} (ready : Ready config) :
    (∀ events : List Event, config.prevKeycodes = [] →
      (Tracks config [] events ↔ AllMeet [] events)) ∧
    (∀ (now : BitVec 32) (keys : List Int), config.prevKeycodes.Nodup → keys.Nodup →
      repeatDue config now = false →
      (queue config).length + (translations config keys).length < inputBufferLen →
      (Sends config now keys ↔ SendMeets config keys)) := by
  constructor
  · intro events prev
    exact tracks_iff ⟨ready, prev, List.nodup_nil, Nat.zero_le _, fun _ mem => nomatch mem⟩
  · intro now keys nodup' nodup quiet room
    exact sends_iff ready nodup nodup' quiet room

/-- C `kbd_plain_xlate`. -/
def kbdPlainXlate : List UInt8 := [
  0xff, 0x1b, 0x31, 0x32, 0x33, 0x34, 0x35, 0x36, 0x37, 0x38,
  0x39, 0x30, 0x2d, 0x3d, 0x08, 0x09, 0x71, 0x77, 0x65, 0x72,
  0x74, 0x79, 0x75, 0x69, 0x6f, 0x70, 0x5b, 0x5d, 0x0d, 0xff,
  0x61, 0x73, 0x64, 0x66, 0x67, 0x68, 0x6a, 0x6b, 0x6c, 0x3b,
  0x27, 0x60, 0xff, 0x5c, 0x7a, 0x78, 0x63, 0x76, 0x62, 0x6e,
  0x6d, 0x2c, 0x2e, 0x2f, 0xff, 0xff, 0xff, 0x20, 0xff, 0xff,
  0xff, 0xff, 0xff, 0xff, 0xff, 0xff, 0xff, 0xff, 0xff, 0xff,
  0xff, 0x37, 0x38, 0x39, 0x2d, 0x34, 0x35, 0x36, 0x2b, 0x31,
  0x32, 0x33, 0x30, 0x2e, 0xff, 0xff, 0xff, 0xff, 0xff, 0xff,
  0xff, 0xff, 0xff, 0xff, 0xff, 0xff, 0x0d, 0xff, 0x2f, 0x2a]

/-- A keyboard with the plain table, behind `input_init`. -/
def plain : Config where
  fifo := List.replicate inputBufferLen none
  fifoIn := 0
  fifoOut := 0
  flags := 0
  leds := 0
  ledsChanged := 0
  prevKeycodes := []
  table := ⟨-1, -1, kbdPlainXlate⟩
  modifiers := []
  allowRepeats := false
  nextRepeatMs := 0
  repeatDelayMs := 0
  repeatRateMs := 0

lemma plain_ready : Ready plain := ⟨rfl, by decide, by decide⟩

/-- A press and a release of A are tracked, and A and S send their characters. -/
theorem keyboard_letters : Tracks plain [] [⟨30, false, 0⟩, ⟨30, true, 0⟩] ∧
    Sends plain 0 [30, 31] := by
  obtain ⟨tracked, sent⟩ := keyboard_iff plain_ready
  constructor
  · refine (tracked _ rfl).mpr ⟨.inr (.inr ⟨by decide, by decide⟩), .inl rfl, ?_⟩
    trivial
  · refine (sent 0 [30, 31] List.nodup_nil (by decide) (by decide) (by decide)).mpr
      ⟨by decide, by decide, ?_, ?_, ?_⟩
    · exact fun no => absurd no (by decide)
    · exact fun no => absurd no (by decide)
    · trivial

/-- Six keys do not fit, and the up arrow behind A is written over it. -/
theorem not_keyboard_arrow :
    ¬Tracks plain [] [⟨30, false, 0⟩, ⟨31, false, 0⟩, ⟨32, false, 0⟩, ⟨33, false, 0⟩,
      ⟨34, false, 0⟩, ⟨35, false, 0⟩] ∧
    ¬Sends plain 0 [30, keyUp] := by
  constructor
  · have empty : Holding plain [] :=
      ⟨plain_ready, rfl, List.nodup_nil, Nat.zero_le _, fun _ mem => nomatch mem⟩
    rw [tracks_iff empty]
    rintro ⟨-, -, -, -, -, sixth, -⟩
    exact absurd sixth (by unfold EventMeets; decide)
  · rw [sends_iff plain_ready (by decide) List.nodup_nil (by decide) (by decide)]
    rintro ⟨-, -, front⟩
    exact absurd (front.2.1 (by decide) (by decide)).2 (by decide)

end Imx.Input
