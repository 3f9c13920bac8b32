import Mathlib.Tactic.Common

/-!
# Required signatures

Model of `common/image-sig.c` and of `rsa_verify` with its choice of a key (`lib/rsa/rsa-verify.c`).
A flat tree is the list of its nodes in the order of the blob, each with its offset, so that an
offset of one tree can be looked up in another as the code does. Whether a signature verifies under
the properties of a key (`rsa_verify_key`), the checksum and the regions of hashed nodes are
parameters. Messages to the console are left out.
-/

namespace Imx.Fit

/-! ## Flat trees -/

/-- A node of a tree; `depth` is 0 for the root. -/
structure FdtNode where
  offset : Nat
  depth : Nat
  name : String
  props : List (String × List UInt8)

/-- A tree, in the order of its structure block. -/
abbrev Fdt := List FdtNode

/-- The nodes `fdt_next_node` visits from an offset on before it leaves the node, with their depth
below it. There are none when no node begins at the offset. -/
def Fdt.walk (fdt : Fdt) (offset : Nat) : List (Nat × FdtNode) :=
  match fdt.dropWhile (·.offset != offset) with
  | [] => []
  | n :: rest => (rest.takeWhile (n.depth < ·.depth)).map fun m => (m.depth - n.depth, m)

/-- The offsets `fdt_for_each_subnode` runs through, with the nodes. -/
def Fdt.subnodes (fdt : Fdt) (offset : Nat) : List FdtNode :=
  ((fdt.walk offset).filter (·.1 == 1)).map (·.2)

/-- Comparison of names; a name without a unit address fits every one (C `_fdt_nodename_eq`). -/
def nodenameEq (n : FdtNode) (s : String) : Bool :=
  n.name == s || (!s.toList.contains '@' && (s.toList ++ ['@']).isPrefixOf n.name.toList)

/-- C `fdt_subnode_offset`; `none` for an error. -/
def Fdt.subnodeOffset (fdt : Fdt) (parent : Nat) (name : String) : Option Nat :=
  ((fdt.subnodes parent).find? (nodenameEq · name)).map (·.offset)

/-- C `fdt_getprop`. -/
def Fdt.getprop (fdt : Fdt) (offset : Nat) (name : String) : Option (List UInt8) :=
  (fdt.find? (·.offset == offset)).bind fun n => n.props.lookup name

/-- A property read as a string. -/
def cstr (value : List UInt8) : String :=
  String.ofList ((value.takeWhile (· != 0)).map fun b => Char.ofNat b.toNat)

/-- A big-endian 32-bit number. -/
def be32 (b : List UInt8) : Nat := (b.take 4).foldl (fun n x => 256 * n + x.toNat) 0

/-- C `fdtdec_get_int`. -/
def Fdt.getInt (fdt : Fdt) (offset : Nat) (name : String) (default : Nat) : Nat :=
  match fdt.getprop offset name with
  | some cell => if 4 ≤ cell.length then be32 cell else default
  | none => default

/-! ## Algorithms -/

structure ChecksumAlgo where
  name : String
  checksumLen : Nat
  padLen : Nat

structure SigAlgo where
  name : String
  checksum : ChecksumAlgo

/-- The algorithms (C `image_sig_algos`, `checksum_algos`). -/
def imageSigAlgos : List SigAlgo :=
  [{ name := "sha1,rsa2048", checksum := { name := "sha1", checksumLen := 20, padLen := 256 } },
   { name := "sha256,rsa2048", checksum := { name := "sha256", checksumLen := 32, padLen := 256 } },
   { name := "sha256,rsa4096", checksum := { name := "sha256", checksumLen := 32, padLen := 512 } }]

/-- C `image_get_sig_algo`. -/
def imageGetSigAlgo (name : String) : Option SigAlgo := imageSigAlgos.find? (·.name == name)

/-- The properties of a key (C `struct key_prop`). -/
structure KeyProp where
  rr : Option (List UInt8)
  modulus : List UInt8
  publicExponent : Option (List UInt8)
  n0inv : Nat
  numBits : Nat

/-- What is not modelled: a checksum over regions, and `rsa_verify_key` on a key, a signature, a
checksum and an algorithm; 0 stands for success. -/
structure Rsa where
  calculate : String → List (List UInt8) → Option (List UInt8)
  verifyKey : KeyProp → List UInt8 → List UInt8 → ChecksumAlgo → Int

/-- What a signature subnode says (C `struct image_sign_info`); the required key is -1 for any. -/
structure SignInfo where
  keyname : Option String
  algo : SigAlgo
  requiredKeynode : Option Nat

/-! ## Verification under a key -/

def eperm : Int := 1
def enoent : Int := 2
def ebadf : Int := 9
def efault : Int := 14
def einval : Int := 22

variable (c : Rsa) (blob : Fdt)

/-- The properties of the key in a node; it must have a length and a modulus. -/
def keyProp (node : Nat) : Option KeyProp :=
  let numBits := blob.getInt node "rsa,num-bits" 0
  match blob.getprop node "rsa,modulus" with
  | none => none
  | some modulus =>
    if numBits = 0 then none
    else
      some {
        numBits
        n0inv := blob.getInt node "rsa,n0-inverse" 0
        publicExponent := (blob.getprop node "rsa,exponent").filter (8 ≤ ·.length)
        modulus
        rr := blob.getprop node "rsa,r-squared" }

/-- C `rsa_verify_with_keynode`. -/
def rsaVerifyWithKeynode (info : SignInfo) (hash sig : List UInt8) (node : Option Nat) : Int :=
  match node with
  | none => -ebadf
  | some node =>
    match keyProp blob node with
    | none => -efault
    | some prop => c.verifyKey prop sig hash info.algo.checksum

/-- The first part of `rsa_verify`: the node of the keys and the checksum. -/
def rsaChecksum (info : SignInfo) (region : List (List UInt8)) : Except Int (Nat × List UInt8) :=
  if info.algo.checksum.padLen < info.algo.checksum.checksumLen then .error (-einval)
  else
    match blob.subnodeOffset 0 "signature" with
    | none => .error (-enoent)
    | some sigNode =>
      match c.calculate info.algo.checksum.name region with
      | none => .error (-einval)
      | some hash => .ok (sigNode, hash)

/-- The node the name hint points at. The name is cut to the 99 characters of its buffer, and a
missing hint is printed as `<NULL>`. -/
def hintNode (info : SignInfo) (sigNode : Nat) : Option Nat :=
  blob.subnodeOffset sigNode
    (String.ofList (("key-".toList ++ (info.keyname.getD "<NULL>").toList).take 99))

/-- The last loop of `rsa_verify`: every node one level down except the hinted one. -/
def tryKeys (info : SignInfo) (hash sig : List UInt8) (node : Option Nat) :
    Int → List (Nat × FdtNode) → Int
  | ret, [] => ret
  | ret, (ndepth, n) :: rest =>
    if ndepth = 1 ∧ some n.offset ≠ node then
      let ret := rsaVerifyWithKeynode c blob info hash sig (some n.offset)
      if ret = 0 then 0 else tryKeys info hash sig node ret rest
    else tryKeys info hash sig node ret rest

/-- The attempts of `rsa_verify`: the required key, the hinted one, then each in turn. The nodes of
the last loop are those of the image (`info->fit`), not of the tree with the keys. -/
def rsaTry (fit : Fdt) (info : SignInfo) (sigNode : Nat) (hash sig : List UInt8) : Int :=
  if info.requiredKeynode ≠ none ∧
      rsaVerifyWithKeynode c blob info hash sig info.requiredKeynode = 0 then 0
  else
    let node := hintNode blob info sigNode
    let ret := rsaVerifyWithKeynode c blob info hash sig node
    if ret = 0 then 0 else tryKeys c blob info hash sig node ret (fit.walk sigNode)

/-- C `rsa_verify`. -/
def rsaVerify (fit : Fdt) (info : SignInfo) (region : List (List UInt8)) (sig : List UInt8) : Int :=
  match rsaChecksum c blob info region with
  | .error ret => ret
  | .ok (sigNode, hash) => rsaTry c blob fit info sigNode hash sig

/-! ## Signature subnodes -/

/-- An image tree, with the regions of the tree that a list of node names stands for
(C `fdt_find_regions`, an error or the regions found) and the bytes of its string table. -/
structure FitImage where
  tree : Fdt
  findRegions : List String → Except Int (List (List UInt8))
  dtStrings : Nat → Nat → List UInt8

variable (fit : FitImage)

/-- C `fit_image_setup_verify`. -/
def fitImageSetupVerify (noffset : Nat) (requiredKeynode : Option Nat) : Except String SignInfo :=
  match fit.tree.getprop noffset "algo" with
  | none => .error "Can't get hash algo property"
  | some algoName =>
    match imageGetSigAlgo (cstr algoName) with
    | none => .error "Unknown signature algorithm"
    | some algo =>
      .ok { keyname := (fit.tree.getprop noffset "key-name-hint").map cstr, algo, requiredKeynode }

/-- C `fit_image_check_sig`. -/
def fitImageCheckSig (data : List UInt8) (noffset : Nat) (requiredKeynode : Option Nat) :
    Except String Unit :=
  match fitImageSetupVerify fit noffset requiredKeynode with
  | .error msg => .error msg
  | .ok info =>
    match fit.tree.getprop noffset "value" with
    | none => .error "Can't get hash value property"
    | some sig =>
      if rsaVerify c blob fit.tree info [data] sig ≠ 0 then .error "Verification failed" else .ok ()

/-- The strings of a property that holds a list of them. -/
def stringList (prop : List UInt8) : List String :=
  ((prop.splitOn 0).take (prop.count 0)).map cstr

/-- The regions a signature of a configuration is over, with the checks of `fit_config_check_sig`. -/
def configRegions (noffset : Nat) : Except String (List (List UInt8)) :=
  let names := stringList ((fit.tree.getprop noffset "hashed-nodes").getD [])
  if names.length = 0 then .error "Can't get hashed-nodes property"
  else if 100 < names.length then .error "Number of hashed nodes exceeds maximum"
  else
    let maxRegions := 20 + names.length * 7
    match fit.findRegions names with
    | .error _ => .error "Failed to hash configuration"
    | .ok regions =>
      if regions.length = 0 then .error "No data to hash"
      else if maxRegions - 1 ≤ regions.length then .error "Too many hash regions"
      else
        match fit.tree.getprop noffset "hashed-strings" with
        | none => .ok regions
        | some strings =>
          .ok (regions ++ [fit.dtStrings (be32 strings) (be32 (strings.drop 4))])

/-- C `fit_config_check_sig`. -/
def fitConfigCheckSig (noffset : Nat) (requiredKeynode : Option Nat) : Except String Unit :=
  match fitImageSetupVerify fit noffset requiredKeynode with
  | .error msg => .error msg
  | .ok info =>
    match fit.tree.getprop noffset "value" with
    | none => .error "Can't get hash value property"
    | some sig =>
      match configRegions fit noffset with
      | .error msg => .error msg
      | .ok regions =>
        if rsaVerify c blob fit.tree info regions sig ≠ 0 then .error "Verification failed"
        else .ok ()

/-- The signature subnodes of a node. -/
def sigNodes (noffset : Nat) : List Nat :=
  ((fit.tree.subnodes noffset).filter
    fun n => "signature".toList.isPrefixOf n.name.toList).map (·.offset)

/-- C `fit_image_verify_sig`; the node of the required key is not handed on. -/
def fitImageVerifySig (imageNoffset : Nat) (data : List UInt8) (_sigOffset : Nat) : Int :=
  if (sigNodes fit imageNoffset).any fun noffset =>
      (fitImageCheckSig c blob fit data noffset none).toBool
  then 0 else -eperm

/-- C `fit_config_verify_sig`. -/
def fitConfigVerifySig (confNoffset sigOffset : Nat) : Int :=
  if (sigNodes fit confNoffset).any fun noffset =>
      (fitConfigCheckSig c blob fit noffset (some sigOffset)).toBool
  then 0 else -eperm

/-! ## Required keys -/

/-- The key nodes that are marked as required for images or for configurations. -/
def requiredKeys (which : String) : List Nat :=
  match blob.subnodeOffset 0 "signature" with
  | none => []
  | some sigNode =>
    ((blob.subnodes sigNode).filter fun n =>
      (blob.getprop n.offset "required").map cstr == some which).map (·.offset)

/-- Verify for one required key after the other; the first failure ends the loop. -/
def verifyEach (verify : Nat → Int) : List Nat → Int
  | [] => 0
  | noffset :: rest => if verify noffset ≠ 0 then verify noffset else verifyEach verify rest

/-- C `fit_image_verify_required_sigs`: the result and `no_sigs`. -/
def fitImageVerifyRequiredSigs (imageNoffset : Nat) (data : List UInt8) : Int × Bool :=
  let ret := verifyEach (fitImageVerifySig c blob fit imageNoffset data) (requiredKeys blob "image")
  (ret, ret ≠ 0 ∨ (requiredKeys blob "image").isEmpty)

/-- C `fit_config_verify_required_sigs`. -/
def fitConfigVerifyRequiredSigs (confNoffset : Nat) : Int :=
  verifyEach (fitConfigVerifySig c blob fit confNoffset) (requiredKeys blob "conf")

end Imx.Fit
