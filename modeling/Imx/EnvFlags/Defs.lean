import Imx.HashTable.RoundTrip

/-!
# Flags of environment variables

Model of `common/env_flags.c` and `common/env_attr.c` (with `CONFIG_REGEX` and `CONFIG_CMD_NET`) on
top of the environment hash table. A variable gets its flags when it is created, from a list that
`env_flags_init` remembers by a pointer, and all variables get new flags when `.flags` changes. The
regular expression code and the other callbacks are parameters.

The outer `none` of a result stands for a read through NULL or of freed memory, or for a store
outside of a buffer.
-/

namespace Imx.EnvFlags
open Imx.Base Imx.HashTable

/-! ## Attribute lists -/

/-- White space (C `isspace`). -/
def isspace (c : UInt8) : Bool := (9 ≤ c && c ≤ 13) || c == 32 || c == 160

/-- A string without white space at its ends (C `strim`). -/
def strim (s : CStr) : CStr := ((s.dropWhile isspace).reverse.dropWhile isspace).reverse

/-- The name and the attributes of an entry of a list; they are NULL without a `:`. -/
def splitEntry (entry : CStr) : CStr × Option CStr :=
  (strim (entry.takeWhile (· != 58)),
    match entry.dropWhile (· != 58) with
    | [] => none
    | _ :: attributes => some (strim attributes))

/-- The entries of a list that have a name: what `env_attr_walk` calls its callback for. -/
def attrEntries (attrList : CStr) : List (CStr × Option CStr) :=
  ((attrList.splitOn 44).map splitEntry).filter fun e => e.1 ≠ []

/-- Call a callback for each entry until it returns an error (C `env_attr_walk`). -/
def envAttrWalk {σ : Type} (callback : σ → CStr → Option CStr → Option (Except Int σ)) :
    List (CStr × Option CStr) → σ → Option (Except Int σ)
  | [], priv => some (.ok priv)
  | (name, attributes) :: entries, priv =>
    match callback priv name attributes with
    | none => none
    | some (.error retval) => some (.error retval)
    | some (.ok priv) => envAttrWalk callback entries priv

/-- C `EINVAL`. -/
def einval : Int := 22
/-- C `ENOENT`. -/
def enoent : Int := 2

/-- The most characters of the flags of a variable (C `ENV_FLAGS_ATTR_MAX_LEN`). -/
def attrMaxLen : Nat := 2

/-- Compiling a pattern, the two anchors put around it, gives its matcher. -/
abbrev Slre := CStr → Option (CStr → Bool)

/-- Remember the attributes of an entry whose pattern matches (C `regex_callback`). The length of
the attributes is taken even where they are NULL. -/
def regexCallback (slre : Slre) (searchedFor : CStr) (priv : Option CStr) (name : CStr)
    (attributes : Option CStr) : Option (Except Int (Option CStr)) :=
  match slre name with
  | none => some (.error einval)
  | some isMatch =>
    if isMatch searchedFor then attributes.map fun a => .ok (some a) else some (.ok priv)

/-- The attributes of a name in a list (C `env_attr_lookup`), copied into a buffer for flags. -/
def envAttrLookup (slre : Slre) (attrList : CStr) (name : CStr) : Option (Except Int CStr) :=
  match envAttrWalk (regexCallback slre name) (attrEntries attrList) none with
  | none => none
  | some (.error retval) => some (.error retval)
  | some (.ok none) => some (.error (-enoent))
  | some (.ok (some attributes)) =>
    if attributes.length ≤ attrMaxLen then some (.ok attributes) else none

/-! ## Flags -/

/-- The letters of the types, in the order of their numbers: `sdxbim`. -/
def vartypeRep : List UInt8 := [115, 100, 120, 98, 105, 109]
/-- The letters of the ways of access: `aroc`. -/
def varaccessRep : List UInt8 := [97, 114, 111, 99]

/-- C `ENV_FLAGS_VARACCESS_PREVENT_DELETE`. -/
def preventDelete : Nat := 8
/-- C `ENV_FLAGS_VARACCESS_PREVENT_CREATE`. -/
def preventCreate : Nat := 16
/-- C `ENV_FLAGS_VARACCESS_PREVENT_OVERWR`. -/
def preventOverwr : Nat := 32
/-- C `ENV_FLAGS_VARACCESS_PREVENT_NONDEF_OVERWR`. -/
def preventNondefOverwr : Nat := 64

/-- What each way of access prevents. -/
def varaccessMask : List Nat :=
  [0, preventDelete ||| preventCreate ||| preventOverwr, preventDelete ||| preventOverwr,
    preventDelete ||| preventNondefOverwr]

/-- The number of a letter among the known ones; 0 for an unknown one and for none. -/
def parseLetter (rep : List UInt8) (c : Option UInt8) : Nat :=
  match c with
  | none => 0
  | some c => (rep.findIdx? (· = c)).getD 0

/-- The type in the flags of a variable (C `env_flags_parse_vartype`). -/
def parseVartype (flags : CStr) : Nat := parseLetter vartypeRep flags[0]?

/-- The access in the flags of a variable (C `env_flags_parse_varaccess`). -/
def parseVaraccess (flags : CStr) : Nat := parseLetter varaccessRep flags[1]?

/-- The flags as they are stored with a variable (C `env_parse_flags_to_bin`). -/
def parseFlagsToBin (flags : CStr) : Int :=
  ((parseVartype flags &&& 7) ||| (varaccessMask[parseVaraccess flags]?).getD 0 : Nat)

/-- What an entry of a list asks for: no attributes clear the flags. -/
def flagsOf (attributes : Option CStr) : Int :=
  match attributes with
  | none => 0
  | some [] => 0
  | some a => parseFlagsToBin a

/-! ## Validation -/

/-- A decimal digit (C `isdigit`). -/
def isdigit (c : UInt8) : Bool := 48 ≤ c && c ≤ 57
/-- A hexadecimal digit (C `isxdigit`). -/
def isxdigit (c : UInt8) : Bool := isdigit c || (65 ≤ c && c ≤ 70) || (97 ≤ c && c ≤ 102)

/-- The string begins with `0x` or `0X` (C `is_hex_prefix`). -/
def isHexMark : CStr → Bool
  | 48 :: c :: _ => c == 120 || c == 88
  | _ => false

/-- What is left behind at most `max` digits. -/
def skipDigits (p : UInt8 → Bool) : Option Nat → CStr → CStr
  | _, [] => []
  | some 0, value => value
  | some (n + 1), c :: value => if p c then skipDigits p (some n) value else c :: value
  | none, c :: value => if p c then skipDigits p none value else c :: value

/-- What is left behind a number (C `skip_num`). -/
def skipNum (hex : Bool) (value : CStr) (maxDigits : Option Nat) : CStr :=
  skipDigits (if hex then isxdigit else isdigit) maxDigits
    (if hex && isHexMark value then value.drop 2 else value)

/-- The loop over `n` numbers with a separator between them; a number may be just the mark of a
hexadecimal one where the caller does not look for that. -/
def numbersLoop (hex : Bool) (maxDigits : Nat) (sep : UInt8) : Nat → CStr → Bool
  | 0, _ => true
  | n + 1, cur =>
    let rest := skipNum hex cur (some maxDigits)
    if rest.length = cur.length then false
    else if hex && rest.length + 2 = cur.length && isHexMark cur then false
    else if n ≠ 0 then rest.head? = some sep && numbersLoop hex maxDigits sep n (rest.drop 1)
    else rest = []

/-- An Ethernet address (C `eth_validate_ethaddr_str`). -/
def validateEthaddr (addr : CStr) : Bool := numbersLoop true 2 58 6 addr

/-- The letters for true and false. -/
def boolLetters : List UInt8 := [49, 121, 116, 89, 84, 48, 110, 102, 78, 70]

/-- Has a value the format of a type (C `_env_flags_validate_type`). -/
def validateType (value : CStr) : Nat → Bool
  | 0 => true
  | 1 => skipNum false value none = []
  | 2 => skipNum true value none = [] && !(value.length = 2 && isHexMark value)
  | 3 => match value with
    | [c] => boolLetters.contains c
    | _ => false
  | 4 => numbersLoop false 3 46 4 value
  | 5 => validateEthaddr value
  | 6 => false
  | _ => true

/-- Force a change through (C `H_FORCE`). -/
def hForce : Nat := 2

/-- The flag `bit` is set. -/
def hasBit (flags : Int) (bit : Nat) : Bool := flags.toNat &&& bit != 0

/-- Is a change refused (C `env_flags_validate`); `getenvDefault` gives default values. -/
def envFlagsValidate (getenvDefault : CStr → Option CStr) (item : Entry) (newval : Option CStr)
    (op : EnvOp) (flag : Int) : Bool :=
  if op ≠ .delete && !validateType (newval.getD []) (item.flags.toNat &&& 7) then true
  else if hasBit flag hForce then false
  else
    match op with
    | .delete => hasBit item.flags preventDelete
    | .overwrite =>
      if hasBit item.flags preventOverwr then true
      else if hasBit item.flags preventNondefOverwr then
        text item.data != (getenvDefault (text item.key)).getD []
      else false
    | .create => hasBit item.flags preventCreate

/-! ## The state -/

/-- The name of the variable with the flags (C `ENV_FLAGS_VAR`). -/
def flagsVar : CStr := [46, 102, 108, 97, 103, 115]
/-- The number of the callback `on_flags`. -/
def flagsCallback : Nat := 0

/-- What a build provides: the regular expressions, the static list of flags, the callbacks and the
default environment. -/
structure Config where
  slre : Slre
  staticList : CStr
  callbackInit : CStr → Option Nat
  runCallback : Nat → CStr → Option CStr → EnvOp → Int → Bool
  getenvDefault : CStr → Option CStr

/-- What a remembered list points to: the buffer `getenv` uses before the import, the value of
`.flags` in the table, or such a value after it was freed. -/
inductive ListPtr where
  | envBuf
  | live
  | freed
deriving DecidableEq, Repr

/-- The table together with the static variables of `env_flags_init`. -/
structure State where
  t : Htab
  envBuf : CStr
  firstCall : Bool
  flagsList : Option ListPtr

/-- The string `.flags` had is freed. -/
def State.release (s : State) : State :=
  { s with flagsList := s.flagsList.map fun p => if p = .live then .freed else p }

variable (c : Config)

/-- The attributes in a list or else in the static one (C `env_flags_lookup`). -/
def envFlagsLookup (flagsList : Option CStr) (name : CStr) : Option (Except Int CStr) :=
  match flagsList with
  | none => envAttrLookup c.slre c.staticList name
  | some list =>
    match envAttrLookup c.slre list name with
    | none => none
    | some (.ok flags) => some (.ok flags)
    | some (.error _) => envAttrLookup c.slre c.staticList name

/-- The flags of a new variable, if any are found (C `env_flags_init`, its tail). -/
def initFlags (flagsList : Option CStr) (name : CStr) : Option (Option Int) :=
  match envFlagsLookup c flagsList name with
  | none => none
  | some (.error _) => some none
  | some (.ok flags) => some (if flags = [] then none else some (parseFlagsToBin flags))

/-- What a change of the table consults; `flags` are those of a new variable. -/
def hooks (flags : Option Int) : Hooks where
  changeOk := some (envFlagsValidate c.getenvDefault)
  runCallback n name value op flag := n ≠ flagsCallback && c.runCallback n name value op flag
  callbackInit := c.callbackInit
  flagsInit _ := flags
  dupKey := true
  dupData := true

/-- The slot a name is found in. -/
def findSlot (t : Htab) (name : CStr) : Option Nat :=
  match hsearchR (hooks c none) t { key := name, data := none } .find 0 with
  | some (_, .ok _ idx) => some idx
  | _ => none

/-- The value of a variable (C `getenv`, after the import). -/
def getenv (t : Htab) (name : CStr) : Option CStr := (findSlot c t name).bind (dataAt t)

/-- The callback of a variable. -/
def callbackOf (t : Htab) (name : CStr) : Option Nat :=
  (findSlot c t name).bind fun idx => (t.table idx).callback

/-- Give the entry of a slot other flags. -/
def setFlagsAt (t : Htab) (idx : Nat) (flags : Int) : Htab :=
  match t.table idx with
  | .used u e => t.set idx (.used u { e with flags })
  | _ => t

/-- Clear the flags of all variables (C `clear_flags`, for each entry). -/
def clearFlags (t : Htab) : Htab :=
  { t with
    table := fun i =>
      match t.table i with
      | .used u e => .used u { e with flags := 0 }
      | s => s }

/-- Give a variable the flags an entry of a list asks for, if there is such a variable
(C `set_flags`). -/
def setFlags (t : Htab) (entry : CStr × Option CStr) : Htab :=
  match findSlot c t entry.1 with
  | some idx => setFlagsAt t idx (flagsOf entry.2)
  | none => t

/-- The flags of all variables for a new value of `.flags` (C `on_flags`). -/
def onFlags (t : Htab) (value : Option CStr) : Htab :=
  let t := (attrEntries c.staticList).foldl (setFlags c) (clearFlags t)
  match value with
  | none => t
  | some list => (attrEntries list).foldl (setFlags c) t

/-! ## Steps -/

/-- Entering the variable makes a new entry. -/
def isNew (t : Htab) (name : CStr) : Bool := findSlot c t name = none && t.filled ≠ t.size

/-- The first call of `env_flags_init` looks for `.flags`; the new entry is in the table by then. -/
def State.remember (s : State) (name : CStr) : State :=
  if s.firstCall then
    { s with
      firstCall := false
      flagsList :=
        if name = flagsVar ∨ findSlot c s.t flagsVar ≠ none then some .live else none }
  else s

/-- The text of the remembered list while `name` is entered with `value`. -/
def State.listText (s : State) (name value : CStr) : Option (Option CStr) :=
  match s.flagsList with
  | none => some none
  | some .envBuf => some (some s.envBuf)
  | some .live => some (if name = flagsVar then some value else getenv c s.t flagsVar)
  | some .freed => none

/-- The flags a variable gets when it is entered. -/
def State.newFlags (s : State) (name value : CStr) : Option (Option Int) :=
  if isNew c s.t name then
    match (s.remember c name).listText c name value with
    | none => none
    | some list => initFlags c list name
  else some none

/-- Operations on the environment. An import is a `clear`, unless `H_NOCLEAR` is given, and then one
`set` or `delete` for each line. -/
inductive Event where
  | set (name value : CStr) (flag : Int)
  | delete (name : CStr) (flag : Int)
  | clear (nel : Nat)
deriving DecidableEq, Repr

/-- Enter a variable. The callback runs before the value is stored; it only writes flags. -/
def State.set (s : State) (name value : CStr) (flag : Int) : Option State := do
  let flags ← s.newFlags c name value
  let isNew := isNew c s.t name
  let s := if isNew then s.remember c name else s
  let (t, r) ← hsearchR (hooks c flags) s.t { key := name, data := some value } .enter flag
  let s := if name = flagsVar ∧ isNew ≠ r.isOk then s.release else s
  if r.isOk ∧ callbackOf c t name = some flagsCallback then
    some { s with t := onFlags c t (some value) }
  else some { s with t }

/-- Delete a variable. -/
def State.delete (s : State) (name : CStr) (flag : Int) : Option State := do
  let callback := callbackOf c s.t name
  let (t, ok) ← hdeleteR (hooks c none) s.t name flag
  let s := if name = flagsVar ∧ ok then s.release else s
  if ok ∧ callback = some flagsCallback then some { s with t := onFlags c t none }
  else some { s with t }

/-- The state after an operation. -/
def State.step (s : State) : Event → Option State
  | .set name value flag => s.set c name value flag
  | .delete name flag => s.delete c name flag
  | .clear nel => (hcreateR nel).map fun (t : Htab) => { s.release with t }

end Imx.EnvFlags
