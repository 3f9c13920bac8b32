import Mathlib.Algebra.Order.Ring.Int
import Mathlib.Data.List.Basic
import Mathlib.Tactic.Common

/-!
# The keyboard layer

Model of `drivers/input/input.c`: the keys that are held, their translation and the queue of
characters. A key code is an `int`. An array is a list of its elements, and `none` is an access
outside of one; of `prev_keycodes` the list holds the first `num_prev_keycodes` elements. A
character of a buffer is `none` as long as nothing was written there. A keyboard has its plain
table, and the time in milliseconds is given to each call that asks for it.
-/

namespace Imx.Input

/-- C `INPUT_MAX_MODIFIERS`. -/
def inputMaxModifiers : Nat := 4
/-- C `INPUT_BUFFER_LEN`. -/
def inputBufferLen : Nat := 16
/-- C `ANSI_CHAR_MAX`. -/
def ansiCharMax : Nat := 3

/-- C `FLAG_SCROLL_LOCK` and `INPUT_LED_SCROLL`. -/
def scrollLock : UInt8 := 1
/-- C `FLAG_NUM_LOCK` and `INPUT_LED_NUM`. -/
def numLock : UInt8 := 2
/-- C `FLAG_CAPS_LOCK` and `INPUT_LED_CAPS`. -/
def capsLock : UInt8 := 4

def keyCapslock : Int := 58
def keyNumlock : Int := 69
def keyScrolllock : Int := 70
def keyKp7 : Int := 71
def keyKpminus : Int := 74
def keyKpplus : Int := 78
def keyKpdot : Int := 83
def keyUp : Int := 103
def keyLeft : Int := 105
def keyRight : Int := 106
def keyDown : Int := 108

/-- No key, or a special key. -/
def noChar : UInt8 := 0xff

/-- A translation table (C `struct input_key_xlate`). -/
structure KeyXlate where
  leftKeycode : Int
  rightKeycode : Int
  xlate : List UInt8

/-- The state of a keyboard (C `struct input_config`). -/
structure Config where
  fifo : List (Option UInt8)
  fifoIn : Nat
  fifoOut : Nat
  flags : UInt8
  leds : UInt8
  ledsChanged : UInt8
  prevKeycodes : List Int
  table : KeyXlate
  modifiers : List KeyXlate
  allowRepeats : Bool
  nextRepeatMs : BitVec 32
  repeatDelayMs : BitVec 32
  repeatRateMs : BitVec 32

/-! ## The queue -/

/-- Put a character in the queue, if it is not full (C `input_queue_ascii`). -/
def inputQueueAscii (config : Config) (ch : Option UInt8) : Option Config :=
  let store (fifoIn : Nat) :=
    if fifoIn < config.fifo.length then
      some { config with fifoIn := fifoIn, fifo := config.fifo.set fifoIn ch }
    else none
  if config.fifoIn + 1 = inputBufferLen then
    if config.fifoOut = 0 then some config else store 0
  else if config.fifoIn + 1 = config.fifoOut then some config
  else store (config.fifoIn + 1)

/-- Queue some characters. -/
def queueAll (config : Config) (chs : List (Option UInt8)) : Option Config :=
  chs.foldlM inputQueueAscii config

/-! ## Modifiers -/

/-- Process a key that has no character: the table that is used from here on (C
`process_modifier`). -/
def processModifier (config : Config) (key : Int) (release : Bool) : KeyXlate × Config :=
  let table := config.modifiers.foldl (fun table tab =>
    if key = tab.leftKeycode ∨ key = tab.rightKeycode then tab else table) config.table
  let flip :=
    if key = keyScrolllock then some scrollLock
    else if key = keyNumlock then some numLock
    else if key = keyCapslock then some capsLock
    else none
  match flip with
  | some flip =>
    if release then (table, config)
    else
      let flags := config.flags ^^^ flip
      let led (lock : UInt8) := if flags &&& lock ≠ 0 then lock else 0
      (table, { config with
        flags := flags, leds := led numLock ||| led capsLock ||| led scrollLock
        ledsChanged := flip })
  | none => (table, config)

/-- The loop over the keys for the modifiers: a key without a character in the table in use changes
the table. -/
def modifierLoop : List Int → KeyXlate → Config → KeyXlate × Config
  | [], table, config => (table, config)
  | code :: keycode, table, config =>
    let key := (code % 2 ^ 12).toNat
    if table.xlate.length ≤ key ∨ table.xlate[key]? = some noChar then
      let r := processModifier config key (code / 2 ^ 15 % 2 ≠ 0)
      modifierLoop keycode r.1 r.2
    else modifierLoop keycode table config

/-! ## The keys that are held -/

/-- Write the next element of an array. -/
def put (dest : List Int) (destCount : Nat) (key : Int) : Option (List Int × Nat) :=
  if destCount < dest.length then some (dest.set destCount key, destCount + 1) else none

/-- Move some of the keys to an array, behind those that are there. -/
def moveLoop (keep : Int → Bool) : List Int → List Int × Nat → Option (List Int × Nat)
  | [], dest => some dest
  | key :: keys, dest =>
    if keep key then (put dest.1 dest.2 key).bind (moveLoop keep keys) else moveLoop keep keys dest

/-- Put those elements first that are in an ordering, in its order: the array and their number (C
`sort_array_by_ordering`). -/
def sortArrayByOrdering (dest order : List Int) : Option (List Int × Nat) := do
  let temp := dest
  let (dest, same) ← moveLoop (· ∈ temp) order (dest, 0)
  let (dest, _) ← moveLoop (· ∉ order) temp (dest, same)
  some (dest, same)

/-- Check the keys against those before: the keys as they are sorted, the number of those that were
held before, and the state (C `input_check_keycodes`). -/
def inputCheckKeycodes (config : Config) (keycode : List Int) :
    Option (List Int × Nat × Config) := do
  let (keycode, same) ← sortArrayByOrdering keycode config.prevKeycodes
  if keycode.length ≤ inputBufferLen then
    some (keycode, same, { config with prevKeycodes := keycode })
  else none

/-! ## Translation -/

/-- C `kbd_to_ansi364`. -/
def kbdToAnsi364 : List (Int × List UInt8) := [
  (keyUp, [0x1b, 0x5b, 0x41]),
  (keyDown, [0x1b, 0x5b, 0x42]),
  (keyRight, [0x1b, 0x5b, 0x43]),
  (keyLeft, [0x1b, 0x5b, 0x44])]

/-- The escape sequence of a key. -/
def escapeOf (keycode : Int) : List UInt8 := (kbdToAnsi364.lookup keycode).getD []

/-- Write an escape sequence to a buffer, from its start on (C `input_keycode_to_ansi364`). -/
def inputKeycodeToAnsi364 (keycode : Int) (outputCh : List (Option UInt8)) :
    Nat × List (Option UInt8) :=
  let escape := escapeOf keycode
  (escape.length, (escape.take outputCh.length).map some ++ outputCh.drop escape.length)

/-- The character of a key by its entry in the table. -/
def charOf (flags : UInt8) (key : Int) (ch : UInt8) : UInt8 :=
  let ch := if flags &&& capsLock ≠ 0 ∧ 0x61 ≤ ch ∧ ch ≤ 0x7a then ch - 0x20 else ch
  -- digits of the key pad only with Num Lock
  if flags &&& numLock = 0 ∧ keyKp7 ≤ key ∧ key ≤ keyKpdot ∧ key ≠ keyKpminus ∧ key ≠ keyKpplus then
    noChar
  else ch

/-- The entry of a key in a table. -/
def entryAt (table : KeyXlate) (key : Int) : Option UInt8 :=
  if 0 ≤ key then table.xlate[key.toNat]? else none

/-- The loop over the keys that are translated, with the number of characters so far. -/
def convertLoop (table : KeyXlate) (flags : UInt8) :
    List Int → Nat → List (Option UInt8) → Option (Nat × List (Option UInt8))
  | [], chCount, outputCh => some (chCount, outputCh)
  | key :: keycode, chCount, outputCh =>
    if key < table.xlate.length then do
      let entry ← entryAt table key
      let ch := charOf flags key entry
      if chCount < outputCh.length ∧ ch ≠ noChar then
        convertLoop table flags keycode (chCount + 1) (outputCh.set chCount (some ch))
      else convertLoop table flags keycode chCount outputCh
    else
      let r := inputKeycodeToAnsi364 key outputCh
      convertLoop table flags keycode (chCount + r.1) r.2

/-- Translate the keys from `same` on: the number of characters, or -1, the buffer and the state (C
`input_keycodes_to_ascii`). -/
def inputKeycodesToAscii (config : Config) (keycode : List Int) (maxChars same : Nat) :
    Option (Int × List (Option UInt8) × Config) := do
  let (table, config) := modifierLoop keycode config.table config
  let (chCount, outputCh) ←
    convertLoop table config.flags (keycode.drop same) 0 (List.replicate maxChars none)
  if chCount > maxChars then some (-1, outputCh, config) else some (chCount, outputCh, config)

/-! ## Keys that come in -/

/-- Is it time for another repeat? -/
def repeatDue (config : Config) (now : BitVec 32) : Bool :=
  config.allowRepeats || config.repeatRateMs ≠ 0 && 0 ≤ (now - config.nextRepeatMs).toInt

/-- Translate the keys that are down and queue their characters (C `_input_send_keycodes`): the
return value and the state. -/
def inputSendKeycodes' (config : Config) (now : BitVec 32) (keycode : List Int) (doSend : Bool) :
    Option (Int × Config) := do
  let maxChars := keycode.length * ansiCharMax
  let (keycode, same, config) ← inputCheckKeycodes config keycode
  let isRepeat := same = keycode.length && repeatDue config now
  if same = keycode.length ∧ isRepeat = false then some (0, config)
  else do
    let (count, ch, config) ←
      inputKeycodesToAscii config keycode maxChars (if isRepeat then 0 else same)
    let config ← (if doSend then queueAll config (ch.take count.toNat) else some config)
    let delayMs := if isRepeat then config.repeatRateMs else config.repeatDelayMs
    some (count, { config with nextRepeatMs := now + delayMs })

/-- C `input_send_keycodes`. -/
def inputSendKeycodes (config : Config) (now : BitVec 32) (keycode : List Int) :
    Option (Int × Config) :=
  inputSendKeycodes' config now keycode true

/-- Append to an array of `INPUT_MAX_MODIFIERS + 1` keys. -/
def append (keycode : List Int) (code : Int) : Option (List Int) :=
  if keycode.length < inputMaxModifiers + 1 then some (keycode ++ [code]) else none

/-- The loop over the keys before, with the new key as long as it was not met. -/
def addLoop (release : Bool) : List Int → Int → List Int → Option (Int × List Int)
  | [], newKeycode, keycode => some (newKeycode, keycode)
  | code :: codes, newKeycode, keycode =>
    if newKeycode = code ∧ release then addLoop release codes newKeycode keycode
    else do
      let newKeycode := if newKeycode = code then -1 else newKeycode
      let keycode ← append keycode code
      addLoop release codes newKeycode keycode

/-- A key is pressed or released (C `input_add_keycode`). -/
def inputAddKeycode (config : Config) (now : BitVec 32) (newKeycode : Int) (release : Bool) :
    Option (Int × Config) := do
  let (newKeycode, keycode) ← addLoop release config.prevKeycodes newKeycode []
  let keycode ← (if !release ∧ newKeycode ≠ -1 then append keycode newKeycode else some keycode)
  inputSendKeycodes' config now keycode (!release)

end Imx.Input
