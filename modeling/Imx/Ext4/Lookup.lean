import Imx.Base.Fuel
import Imx.Base.Mem

/-!
# Finding a file of an ext4 file system

Model of `ext4fs_iterate_dir` (for a name that is looked for), `ext4fs_read_symlink`,
`ext4fs_find_file1` and `ext4fs_find_file` of `fs/ext4/ext4_common.c`, with memory to be had. A path
is its characters, without a `NUL`. A run is given a count of the turns and calls it may nest, and
is `none` where it takes more.

C → Lean naming: a node with `inode_read == 0` has no `inode`. The out-parameter `foundtype` is an
`Option`, which is `none` where it is not set; `symlinknest` is passed in and handed back.
-/

namespace Imx.Ext4
open Imx.Base

/-- `FILETYPE_UNKNOWN`, `FILETYPE_REG`, `FILETYPE_DIRECTORY` and `FILETYPE_SYMLINK`. -/
inductive FileType where
  | unknown
  | reg
  | directory
  | symlink
  deriving DecidableEq

/-- The type in a directory entry, which is not `FILETYPE_UNKNOWN`. -/
def FileType.ofDirent (filetype : Nat) : FileType :=
  if filetype = 2 then
    .directory
  else if filetype = 7 then
    .symlink
  else if filetype = 1 then
    .reg
  else
    .unknown

/-- The type in the mode of an inode. -/
def FileType.ofMode (mode : Nat) : FileType :=
  if mode &&& 0xf000 = 0x4000 then
    .directory
  else if mode &&& 0xf000 = 0xa000 then
    .symlink
  else if mode &&& 0xf000 = 0x8000 then
    .reg
  else
    .unknown

/-- `struct ext2_inode`. -/
structure Ext2Inode where
  mode : Nat
  size : Nat
  /-- The union `b`, of 60 bytes. -/
  symlink : Mem
  /-- What `ext4fs_read_file` leaves in a buffer of a length, or `none` where it fails. -/
  read : Nat → Nat → Option (List UInt8)

/-- `struct ext2_dirent`. -/
structure Ext2Dirent where
  inode : Nat
  direntlen : Nat
  namelen : Nat
  filetype : Nat

def Ext2Dirent.get (bytes : List UInt8) : Ext2Dirent :=
  let m := Mem.zero.write 0 bytes
  ⟨m.get32 0, m.get16 4, (m 6).toNat, (m 7).toNat⟩

/-- `struct ext2fs_node`. -/
structure Ext2fsNode where
  ino : Nat
  inode : Option Ext2Inode

/-- A file system. -/
structure Fs where
  /-- `ext4fs_read_inode`. -/
  readInode : Nat → Option Ext2Inode

variable (fs : Fs)

/-- `ext4fs_root->diropen`. -/
def Fs.diropen : Ext2fsNode := ⟨2, fs.readInode 2⟩

/-- The inode of a node, which is read where it was not yet. -/
def Fs.inodeOf (node : Ext2fsNode) : Option Ext2Inode :=
  match node.inode with
  | some inode => some inode
  | none => fs.readInode node.ino

/-- The characters of a string, up to its `NUL`. -/
def cstr (bytes : List UInt8) : List UInt8 := bytes.takeWhile (· ≠ 0)

/-! ## Directories -/

/-- The node of an entry, and its type. -/
def Fs.entryNode (dirent : Ext2Dirent) : Option (Ext2fsNode × FileType) :=
  if dirent.filetype ≠ 0 then
    some (⟨dirent.inode, none⟩, .ofDirent dirent.filetype)
  else
    (fs.readInode dirent.inode).map fun inode =>
      (⟨dirent.inode, some inode⟩, .ofMode inode.mode)

/-- A turn of `ext4fs_iterate_dir` at an entry, where `next` are the turns that come next. The inner
`none` is a name that is not found. -/
def Fs.look (inode : Ext2Inode) (name : List UInt8) (fpos : Nat) (dirent : Ext2Dirent)
    (next : Option (Option (Ext2fsNode × FileType))) : Option (Option (Ext2fsNode × FileType)) :=
  if dirent.direntlen = 0 then
    some none
  else if dirent.namelen ≠ 0 then
    match inode.read (fpos + 8) dirent.namelen with
    | none => some none
    | some filename =>
      match fs.entryNode dirent with
      | none => some none
      | some found => if cstr filename = name then some (some found) else next
  else
    next

/-- The turns from an offset on. -/
def Fs.iterate (inode : Ext2Inode) (name : List UInt8) :
    Nat → Nat → Option (Option (Ext2fsNode × FileType))
  | 0, _ => none
  | k + 1, fpos =>
    if inode.size ≤ fpos then
      some none
    else
      match inode.read fpos 8 with
      | none => some none
      | some bytes =>
        let dirent := Ext2Dirent.get bytes
        fs.look inode name fpos dirent
          (iterate inode name k ((fpos + dirent.direntlen) % 2 ^ 32))

/-- `ext4fs_iterate_dir`. -/
def ext4fsIterateDir (dir : Ext2fsNode) (name : List UInt8) (k : Nat) :
    Option (Option (Ext2fsNode × FileType)) :=
  match fs.inodeOf dir with
  | none => some none
  | some inode => fs.iterate inode name k 0

/-- `ext4fs_read_symlink`. -/
def ext4fsReadSymlink (node : Ext2fsNode) : Option (List UInt8) :=
  match fs.inodeOf node with
  | none => none
  | some inode =>
    if inode.size ≤ 60 then
      some (cstr (inode.symlink.read 0 inode.size))
    else
      (inode.read 0 inode.size).map cstr

/-! ## Paths -/

/-- `'/'`. -/
def slash : UInt8 := 47

/-- Remove all leading slashes. -/
def strip (path : List UInt8) : List UInt8 := path.dropWhile (· = slash)

/-- A node, and the type that was found for it. -/
abbrev Found (τ : Type) := Option (Ext2fsNode × τ) × Nat

/-- The loop of `ext4fs_find_file1`, for a count of its turns. -/
abbrev Loop := List UInt8 → Ext2fsNode → FileType → Nat → Option (Found FileType)

/-- `ext4fs_find_file1`, with its loop. -/
def findWith (loop : Loop) (currpath : List UInt8) (currroot : Ext2fsNode) (symlinknest : Nat) :
    Option (Found (Option FileType)) :=
  let name := strip currpath
  if name = [] then
    some (some (currroot, none), symlinknest)
  else
    (loop name currroot .directory symlinknest).map fun found =>
      (found.1.map fun (node, type) => (node, some type), found.2)

/-- Read in the symlink and follow it. -/
def Fs.follow (loop : Loop) (oldnode node : Ext2fsNode) (type : FileType) (symlinknest : Nat) :
    Option (Found FileType) :=
  if type = .symlink then
    let symlinknest := symlinknest + 1
    -- Test if the symlink does not loop.
    if symlinknest = 8 then
      some (none, symlinknest)
    else
      match ext4fsReadSymlink fs node with
      | none => some (none, symlinknest)
      | some symlink =>
        let oldnode := if symlink.head? = some slash then fs.diropen else oldnode
        (findWith loop symlink oldnode symlinknest).map fun found =>
          (found.1.map fun (node, foundtype) => (node, foundtype.getD type), found.2)
  else
    some (some (node, type), symlinknest)

/-- The end of a turn, with the rest of the path. -/
def onward (loop : Loop) (next : List UInt8) : Found FileType → Option (Found FileType)
  | (none, symlinknest) => some (none, symlinknest)
  | (some (node, type), symlinknest) =>
    -- Found the node!
    if next = [] then some (some (node, type), symlinknest) else loop next node type symlinknest

/-- A turn after the directory was searched. -/
def Fs.turn (loop : Loop) (currnode : Ext2fsNode) (next : List UInt8) (symlinknest : Nat) :
    Option (Ext2fsNode × FileType) → Option (Found FileType)
  | none => some (none, symlinknest)
  | some (node, type) =>
    (fs.follow loop currnode node type symlinknest).bind (onward loop next)

/-- The part of a path behind its first name. -/
def rest (name : List UInt8) : List UInt8 := strip (name.dropWhile (· ≠ slash))

def Fs.findLoop : Nat → Loop
  | 0, _, _, _, _ => none
  | k + 1, name, currnode, type, symlinknest =>
    if type ≠ .directory then
      some (none, symlinknest)
    else
      -- Extract the actual part from the pathname.
      (ext4fsIterateDir fs currnode (name.takeWhile (· ≠ slash)) k).bind
        (fs.turn (fun name node type nest => findLoop k name node type nest) currnode (rest name)
          symlinknest)

/-- `ext4fs_find_file1`. -/
def ext4fsFindFile1 (currpath : List UInt8) (currroot : Ext2fsNode) (symlinknest k : Nat) :
    Option (Found (Option FileType)) :=
  findWith (fs.findLoop k) currpath currroot symlinknest

/-- Whether a node is of the expected type. -/
def expected (expecttype foundtype : FileType) : Bool :=
  (expecttype ≠ .reg ∨ foundtype = expecttype) ∧ (expecttype ≠ .directory ∨ foundtype = expecttype)

/-- The node that was found, if it is of the expected type. -/
def checked (expecttype : FileType) (found : Found (Option FileType)) :
    Option (Ext2fsNode × FileType) :=
  (found.1.map fun (node, foundtype) => (node, foundtype.getD .directory)).filter fun found =>
    expected expecttype found.2

/-- `ext4fs_find_file` from the root on: the node that is found, with the type that was found. -/
def ext4fsFindFile (path : List UInt8) (expecttype : FileType) (k : Nat) :
    Option (Option (Ext2fsNode × FileType)) :=
  (ext4fsFindFile1 fs path fs.diropen 0 k).map (checked expecttype)

end Imx.Ext4
