import Imx.Imximage.Defs

/-!
# The table of a configuration file

What a configuration file says (`configured`), what the boot ROM reads in a header (`romOps`), and
the commands that lie in the table while a file is read (`Layout`): those that are finished, and the
last one, which writes of its kind go on in.
-/

namespace Imx.Imximage
open Imx.Base

variable {s s' : Img} {cmd : Cmd} {m : Mem} {tokens : List Str} {n r fld value addr : Nat}

/-- An operation: a write or a check of an address. -/
structure Op where
  cmd : Cmd
  width : Nat
  address : Nat
  value : Nat
deriving DecidableEq, Repr

def Cmd.isDcd (cmd : Cmd) : Bool := (dcdCommand cmd).isSome

/-- The value of a field. -/
def val (token : Str) : Nat := (getCfgValue token).getD 0

/-- The operation that a line asks for. -/
def configuredLine : List Str → List Op
  | name :: size :: address :: value :: _ =>
    match getTableEntryId imximageCmds name with
    | some cmd => if cmd.isDcd then [⟨cmd, val size, val address, val value⟩] else []
    | none => []
  | _ => []

def configured (lines : List (List Str)) : List Op := lines.flatMap configuredLine

/-- The version that a line says. -/
def saysVersion : List Str → Option Nat
  | name :: version :: _ =>
    if getTableEntryId imximageCmds name = some .imageVersion then getCfgValue version else none
  | _ => none

/-- A configuration file of version 2: the first line that does anything says so, and none says
anything else. -/
def Version2 (lines : List (List Str)) : Prop :=
  (lines.filter (2 ≤ ·.length)).head?.bind saysVersion = some 2 ∧
    ∀ tokens ∈ lines, ∀ version ∈ saysVersion tokens, version = 2

/-! ## What the boot ROM reads -/

/-- The command of a tag and the flags of a parameter. -/
def romCmd (tag param : UInt8) : Option Cmd :=
  if tag = 0xCC ∧ param / 8 = 0 then some .writeData
  else if tag = 0xCC ∧ param / 8 = 1 then some .writeClrBit
  else if tag = 0xCF ∧ param / 8 = 2 then some .checkBitsSet
  else if tag = 0xCF ∧ param / 8 = 0 then some .checkBitsClr
  else none

/-- A big-endian number. -/
def ofBe (bs : List UInt8) : Nat := ofLe bs.reverse

/-- Pairs of an address and a value. -/
def romPairs : Nat → List UInt8 → List (Nat × Nat)
  | 0, _ => []
  | n + 1, bs => (ofBe (bs.take 4), ofBe ((bs.drop 4).take 4)) :: romPairs n (bs.drop 8)

/-- One command after the other; the lowest bits of a parameter are the width. -/
def romCommands : Nat → List UInt8 → Option (List Op)
  | _, [] => some []
  | fuel + 1, tag :: l1 :: l0 :: param :: bs =>
    let len := ofBe [l1, l0]
    if len < 4 ∨ bs.length < len - 4 ∨ (len - 4) % 8 ≠ 0 then none
    else
      (romCmd tag param).bind fun cmd =>
        (romCommands fuel (bs.drop (len - 4))).map
          ((romPairs ((len - 4) / 8) bs).map (fun e => ⟨cmd, (param % 8).toNat, e.1, e.2⟩) ++ ·)
  | _, _ => none

/-- The operations of the table of a header. -/
def romOps (m : Mem) : Option (List Op) :=
  let len := m.be16 (dcdTable + 1)
  if m dcdTable = 0xD2 ∧ m (dcdTable + 3) = 0x40 ∧ 4 ≤ len then
    romCommands len (m.read dcdCmd (len - 4))
  else none

/-! ## What lies in the table -/

/-- A command with its entries. -/
structure Group where
  cmd : Cmd
  entries : List (Nat × Nat)
deriving DecidableEq, Repr

def Group.size (g : Group) : Nat := 4 + 8 * g.entries.length

def entryBytes (e : Nat × Nat) : List UInt8 := bytesBe 4 e.1 ++ bytesBe 4 e.2

def tagOf (cmd : Cmd) : UInt8 := ((dcdCommand cmd).getD (0, 0)).1

def paramOf (cmd : Cmd) : UInt8 := ((dcdCommand cmd).getD (0, 0)).2

def Group.encode (g : Group) : List UInt8 :=
  tagOf g.cmd :: (bytesBe 2 g.size ++ paramOf g.cmd :: g.entries.flatMap entryBytes)

def Group.ops (g : Group) : List Op := g.entries.map fun e => ⟨g.cmd, 4, e.1, e.2⟩

/-- The commands that are finished and the last one. -/
structure Layout where
  done : List Group
  cur : Option Group
deriving DecidableEq, Repr

def sizeOf (gs : List Group) : Nat := (gs.map Group.size).sum

/-- Where the last command begins. -/
def Layout.last (l : Layout) : Nat := dcdCmd + sizeOf l.done

/-- Where it ends. -/
def Layout.stop (l : Layout) : Nat := l.last + (l.cur.map Group.size).getD 0

def Layout.ops (l : Layout) : List Op :=
  l.done.flatMap Group.ops ++ (l.cur.map Group.ops).getD []

/-- The end of the table, which a last command without entries does not belong to. -/
def Layout.tableEnd (l : Layout) : Nat :=
  match l.cur with
  | some g => if g.entries = [] then l.last else l.stop
  | none => l.last

/-- The last command is made one of a kind. -/
def Layout.touch (l : Layout) (cmd : Cmd) : Layout :=
  match l.cur with
  | none => ⟨l.done, some ⟨cmd, []⟩⟩
  | some g =>
    if (cmd = .writeData ∨ cmd = .writeClrBit) ∧ g.cmd = cmd then l
    else if g.entries = [] then ⟨l.done, some ⟨cmd, []⟩⟩
    else ⟨l.done ++ [g], some ⟨cmd, []⟩⟩

/-- An entry is put into the last command. -/
def Layout.append (l : Layout) (e : Nat × Nat) : Layout :=
  ⟨l.done, l.cur.map fun g => { g with entries := g.entries ++ [e] }⟩

/-- The first command becomes the last one again. -/
def Layout.reset (l : Layout) : Layout :=
  match l.done with
  | [] => l
  | g :: _ => ⟨[], some g⟩

/-- What a line does to the table, and how far what it writes reaches. -/
def Layout.line (l : Layout) : List Str → Layout × Nat
  | name :: fields =>
    match getTableEntryId imximageCmds name, fields with
    | some cmd, _ :: fields =>
      if cmd.isDcd then
        match fields with
        | [] => (l.touch cmd, (l.touch cmd).stop)
        | [_] => (l.touch cmd, (l.touch cmd).stop + 4)
        | address :: value :: _ =>
          ((l.touch cmd).append (val address, val value), (l.touch cmd).stop + 8)
      else if cmd = .imageVersion then (l.reset, 0)
      else (l, 0)
    | _, _ => (l, 0)
  | [] => (l, 0)

/-- The table behind more lines, and how far all that was written reaches. -/
def Layout.lines (l : Layout × Nat) (lines : List (List Str)) : Layout × Nat :=
  lines.foldl (fun l tokens => ((l.1.line tokens).1, max l.2 (l.1.line tokens).2)) l

/-- The table behind the lines of a file. -/
def layout (lines : List (List Str)) : Layout × Nat := Layout.lines (⟨[], none⟩, dcdCmd) lines

def isVersionLine : List Str → Bool
  | name :: _ :: _ => getTableEntryId imximageCmds name = some .imageVersion
  | _ => false

/-- No operation is lost where the version is said again. -/
def Kept : Layout → List (List Str) → Prop
  | _, [] => True
  | l, tokens :: lines =>
    (isVersionLine tokens = true → l.reset.ops = l.ops) ∧ Kept (l.line tokens).1 lines

instance Kept.decidable : (l : Layout) → (lines : List (List Str)) → Decidable (Kept l lines)
  | _, [] => isTrue trivial
  | l, tokens :: lines =>
    have : Decidable (Kept (l.line tokens).1 lines) := Kept.decidable _ lines
    inferInstanceAs (Decidable (_ ∧ _))

end Imx.Imximage
