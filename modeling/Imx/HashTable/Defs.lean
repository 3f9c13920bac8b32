import Mathlib.Data.List.Basic
import Imx.Base.Probe

/-!
# The environment hash table

The reentrant hash table of `lib/hashtable.c` that holds the environment: open addressing with
double hashing, in slots `1..size`. The C names keep their words: `hcreate_r` is `hcreateR`,
`hsearch_r` is `hsearchR`, `_compare_and_overwrite_entry` is `compareAndOverwriteEntry`.

The code outside the table that a change consults (`change_ok`, the callbacks, the two lookups of
attributes and the outcomes of `strdup`) is the parameter `Hooks`.
-/

namespace Imx.HashTable
open Imx.Base

/-- The bytes of a C string, the terminating NUL left out. -/
abbrev CStr := List UInt8

/-- Which kind of change is about to happen (C `enum env_op`). -/
inductive EnvOp where
  | create
  | delete
  | overwrite
deriving DecidableEq, Repr

/-- What a search is for (C `ACTION`). -/
inductive Action where
  | find
  | enter
deriving DecidableEq, Repr

/-- The error numbers the table reports. -/
inductive Errno where
  | enomem
  | eperm
  | einval
  | esrch
deriving DecidableEq, Repr

/-- A stored entry (C `ENTRY`). A string is `none` where `strdup` gave NULL; a callback is known
by its number. -/
structure Entry where
  key : Option CStr
  data : Option CStr
  callback : Option Nat
  flags : Int
deriving DecidableEq, Repr

/-- The key and the new value a search is given (the C `ENTRY item`). -/
structure Item where
  key : CStr
  data : Option CStr
deriving DecidableEq, Repr

/-- A slot (C `_ENTRY`): its `used` field is 0 when it was never used, -1 when its entry was
deleted, and the first hash value of the key it holds otherwise. -/
inductive Slot where
  | free
  | deleted
  | used (hval : Nat) (entry : Entry)
deriving DecidableEq, Repr

/-- The callback a slot's memory holds: `calloc` and `_hdelete` leave NULL. -/
def Slot.callback : Slot → Option Nat
  | .used _ e => e.callback
  | _ => none

/-- The flags a slot's memory holds: `calloc` and `_hdelete` leave 0. -/
def Slot.flags : Slot → Int
  | .used _ e => e.flags
  | _ => 0

/-- The slot holds an entry. -/
def Slot.Live : Slot → Prop
  | .used _ _ => True
  | _ => False

instance (s : Slot) : Decidable s.Live :=
  match s with
  | .used _ _ => isTrue trivial
  | .free => isFalse id
  | .deleted => isFalse id

/-- A table with its slots (C `struct hsearch_data` whose `table` is not NULL). -/
structure Htab where
  table : Nat → Slot
  size : Nat
  filled : Nat

/-- Store into slot `idx`. -/
def Htab.set (t : Htab) (idx : Nat) (s : Slot) : Htab :=
  { t with table := Function.update t.table idx s }

/-- What the table calls and relies on: `change_ok` (true refuses the change), the callbacks by
number (true refuses), the attributes found for a new name, and whether the two calls of `strdup`
find memory. -/
structure Hooks where
  changeOk : Option (Entry → Option CStr → EnvOp → Int → Bool)
  runCallback : Nat → CStr → Option CStr → EnvOp → Int → Bool
  callbackInit : CStr → Option Nat
  flagsInit : CStr → Option Int
  dupKey : Bool
  dupData : Bool

/-- `htab->change_ok != NULL && htab->change_ok(…)`. -/
def Hooks.rejects (hk : Hooks) (e : Entry) (newval : Option CStr) (op : EnvOp) (flag : Int) : Bool :=
  match hk.changeOk with
  | none => false
  | some ok => ok e newval op flag

/-- `entry.callback && entry.callback(…)`. -/
def Hooks.vetoes (hk : Hooks) (cb : Option Nat) (name : CStr) (value : Option CStr) (op : EnvOp)
    (flag : Int) : Bool :=
  match cb with
  | none => false
  | some n => hk.runCallback n name value op flag

/-- A copy of a string; a NULL source or no memory gives NULL (C `strdup`). -/
def strdup (mem : Bool) (s : Option CStr) : Option CStr :=
  if mem then s else none

/-- What a search returns: `fail` is 0 with `*retval` NULL, `ok ret idx` is `ret` with `*retval`
pointing at the entry of slot `idx`. -/
inductive Res where
  | fail (errno : Errno)
  | ok (ret idx : Nat)
deriving DecidableEq, Repr

/-- The trial divisions by 3, 5, 7, … of `isprime`, at most `fuel` of them. -/
def isprimeLoop (number : Nat) : Nat → Nat → Nat
  | 0, div => div
  | fuel + 1, div =>
    if div * div < number ∧ number % div ≠ 0 then isprimeLoop number fuel (div + 2) else div

/-- The prime test, for odd numbers (C `isprime`). -/
def isprime (number : Nat) : Bool :=
  number % isprimeLoop number number 3 != 0

/-- `while (!isprime(nel)) nel += 2;`, at most `fuel` turns. -/
def nextPrime : Nat → Nat → Option Nat
  | 0, _ => none
  | fuel + 1, nel => if isprime nel then some nel else nextPrime fuel (nel + 2)

/-- An empty table of `size` slots. -/
def Htab.empty (size : Nat) : Htab :=
  { table := fun _ => .free, size, filled := 0 }

/-- A new table for `nel` entries (C `hcreate_r`, called with no table active): its size is the
first odd number from `nel` on that passes `isprime`. -/
def hcreateR (nel : Nat) : Option Htab :=
  (nextPrime (nel + 1) (nel ||| 1)).map fun (n : Nat) => Htab.empty n

/-- The number computed for a key, in 32 bits, the last character first. -/
def hashKey (key : CStr) : Nat :=
  key.foldr (fun c hval => (hval * 16 + c.toNat) % 2 ^ 32) (key.length % 2 ^ 32)

/-- The first hash function: modulo the size, but not zero. -/
def firstHash (size : Nat) (key : CStr) : Nat :=
  if hashKey key % size = 0 then 1 else hashKey key % size

/-- The second hash function: the distance between two probes. -/
def secondHash (size hval : Nat) : Nat :=
  1 + hval % (size - 2)

/-- `--htab->filled` on an unsigned int. -/
def decFilled (filled : Nat) : Nat :=
  (filled + (2 ^ 32 - 1)) % 2 ^ 32

/-- Free the entry of a slot and mark it deleted (C `_hdelete`). -/
def hdelete (t : Htab) (idx : Nat) : Htab :=
  { t.set idx .deleted with filled := decFilled t.filled }

section Search

variable (hk : Hooks) (t : Htab) (item : Item) (action : Action) (flag : Int)

/-- Give the entry `e` found at `idx` the new value, if there is one to give. -/
def overwriteEntry (hval idx : Nat) (e : Entry) : Htab × Res :=
  if action = .enter ∧ item.data ≠ none then
    if hk.rejects e item.data .overwrite flag then (t, .fail .eperm)
    else if hk.vetoes e.callback item.key item.data .overwrite flag then (t, .fail .einval)
    else
      let data := strdup hk.dupData item.data
      let t := t.set idx (.used hval { e with data })
      if data = none then (t, .fail .enomem) else (t, .ok idx idx)
  else (t, .ok idx idx)

/-- Compare the entry of a slot with the wanted key and overwrite it on a match; `none` means
keep searching (C `_compare_and_overwrite_entry`). -/
def compareAndOverwriteEntry (hval idx : Nat) : Option (Htab × Res) :=
  match t.table idx with
  | .used u e =>
    if u = hval ∧ e.key = some item.key then
      some (overwriteEntry hk t item action flag hval idx e)
    else none
  | _ => none

/-- The `do … while` loop over the probe sequence, at most `fuel` turns: the answer of the slot
that matches, or the slot the search stops at. -/
def searchLoop (hval : Nat) : Nat → Nat → Option ((Htab × Res) ⊕ Nat)
  | 0, _ => none
  | fuel + 1, idx =>
    let idx := probeNext t.size (secondHash t.size hval) idx
    if idx = hval then some (.inr idx)
    else
      match compareAndOverwriteEntry hk t item action flag hval idx with
      | some r => some (.inl r)
      | none => if t.table idx = .free then some (.inr idx) else searchLoop hval fuel idx

/-- The memory of the new entry in a slot, once key and data are copied: callback and flags are
set only where the lookups find some. -/
def newEntry (s : Slot) : Entry :=
  { key := strdup hk.dupKey (some item.key)
    data := strdup hk.dupData item.data
    callback := s.callback
    flags := s.flags }

/-- The callback and the flags of a new entry (C `env_callback_init`, `env_flags_init`). -/
def initEntry (e : Entry) : Entry :=
  { e with
    callback := (hk.callbackInit item.key).or e.callback
    flags := (hk.flagsInit item.key).getD e.flags }

/-- Create a new entry in slot `idx` (the tail of `hsearch_r` under `action == ENTER`). -/
def createEntry (hval idx : Nat) : Htab × Res :=
  let e := newEntry hk item (t.table idx)
  if e.key = none ∨ e.data = none then (t.set idx (.used hval e), .fail .enomem)
  else
    let e := initEntry hk item e
    let t := { t.set idx (.used hval e) with filled := (t.filled + 1) % 2 ^ 32 }
    if hk.rejects e item.data .create flag then (hdelete t idx, .fail .eperm)
    else if hk.vetoes e.callback item.key item.data .create flag then
      (hdelete t idx, .fail .einval)
    else (t, .ok 1 idx)

/-- The search stopped at `idx` without a match; `firstDeleted` is the first slot if it was
found deleted. -/
def notFound (hval : Nat) (firstDeleted : Option Nat) (idx : Nat) : Htab × Res :=
  match action with
  | .enter =>
    if t.filled = t.size then (t, .fail .enomem)
    else createEntry hk t item flag hval (firstDeleted.getD idx)
  | .find => (t, .fail .esrch)

/-- The search function (C `hsearch_r`); `none` means the probe loop does not end within `size`
turns. -/
def hsearchR : Option (Htab × Res) :=
  let hval := firstHash t.size item.key
  match t.table hval with
  | .free => some (notFound hk t item action flag hval none hval)
  | s =>
    let firstDeleted := if s = .deleted then some hval else none
    match compareAndOverwriteEntry hk t item action flag hval hval with
    | some r => some r
    | none =>
      match searchLoop hk t item action flag hval t.size hval with
      | none => none
      | some (.inl r) => some r
      | some (.inr idx) => some (notFound hk t item action flag hval firstDeleted idx)

end Search

/-- Delete a key; the Boolean is the return value (C `hdelete_r`). -/
def hdeleteR (hk : Hooks) (t : Htab) (key : CStr) (flag : Int) : Option (Htab × Bool) :=
  match hsearchR hk t { key, data := none } .find 0 with
  | none => none
  | some (_, .fail _) => some (t, false)
  | some (_, .ok _ idx) =>
    match t.table idx with
    | .used _ e =>
      if hk.rejects e none .delete flag then some (t, false)
      else if hk.vetoes e.callback key none .delete flag then some (t, false)
      else some (hdelete t idx, true)
    | _ => some (t, false)

end Imx.HashTable
