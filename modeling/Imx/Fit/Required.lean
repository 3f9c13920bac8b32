import Imx.Fit.Defs

/-!
# Which keys a signature is accepted under

`Verifies` says that a signature subnode verifies under the key in a node, `FallsBack` that it does
so under a key that `rsa_verify` tries without being asked to: the one the name hint points at or
one of the nodes its last loop visits. A signature is accepted for a required key when it verifies
under that key or falls back (`accepts_iff`), and for an image the required key is not handed on at
all. `required_sigs_iff` draws the line this puts between the keys that are required and the
keys that are enforced.
-/

namespace Imx.Fit

variable {c : Rsa} {blob : Fdt} {fit : FitImage} {regions : Nat → Except String (List (List UInt8))}

/-- What a signature subnode gives `rsa_verify` to try keys with: what it says, the node of the
keys, the checksum of its regions and the signature. -/
structure Prepared (c : Rsa) (blob : Fdt) (fit : FitImage)
    (regions : Nat → Except String (List (List UInt8))) (noffset : Nat) (info : SignInfo)
    (sigNode : Nat) (hash sig : List UInt8) : Prop where
  setup : fitImageSetupVerify fit noffset none = .ok info
  value : fit.tree.getprop noffset "value" = some sig
  checksum : ∃ region, regions noffset = .ok region ∧
    rsaChecksum c blob info region = .ok (sigNode, hash)

/-- A signature subnode verifies under the key in a node. -/
def Verifies (c : Rsa) (blob : Fdt) (fit : FitImage)
    (regions : Nat → Except String (List (List UInt8))) (noffset key : Nat) : Prop :=
  ∃ info sigNode hash sig, Prepared c blob fit regions noffset info sigNode hash sig ∧
    rsaVerifyWithKeynode c blob info hash sig (some key) = 0

/-- A signature subnode verifies under the key its name hint points at, or under the properties of
a node that the last loop of `rsa_verify` visits. -/
def FallsBack (c : Rsa) (blob : Fdt) (fit : FitImage)
    (regions : Nat → Except String (List (List UInt8))) (noffset : Nat) : Prop :=
  ∃ info sigNode hash sig, Prepared c blob fit regions noffset info sigNode hash sig ∧
    ∃ key, (hintNode blob info sigNode = some key ∨
        key ∈ (fit.tree.subnodes sigNode).map (·.offset)) ∧
      rsaVerifyWithKeynode c blob info hash sig (some key) = 0

/-! ## The attempts of `rsa_verify` -/

/-- The required key plays no part in the trial of a given key. -/
lemma verifyWithKeynode_required {info : SignInfo} {hash sig : List UInt8} {node : Option Nat}
    {k : Option Nat} :
    rsaVerifyWithKeynode c blob { info with requiredKeynode := k } hash sig node =
      rsaVerifyWithKeynode c blob info hash sig node := by
  cases node <;> rfl

/-- After a failure the last loop succeeds exactly if one of its nodes does. -/
lemma tryKeys_eq_zero {info : SignInfo} {hash sig : List UInt8} {node : Option Nat} {ret : Int}
    {ns : List (Nat × FdtNode)} (failed : ret ≠ 0) :
    tryKeys c blob info hash sig node ret ns = 0 ↔
      ∃ p ∈ ns, p.1 = 1 ∧ some p.2.offset ≠ node ∧
        rsaVerifyWithKeynode c blob info hash sig (some p.2.offset) = 0 := by
  induction ns generalizing ret with
  | nil => simp [tryKeys, failed]
  | cons p ns ih =>
    obtain ⟨ndepth, n⟩ := p
    simp only [tryKeys, List.mem_cons, exists_eq_or_imp]
    by_cases visited : ndepth = 1 ∧ some n.offset ≠ node
    · rw [if_pos visited]
      by_cases zero : rsaVerifyWithKeynode c blob info hash sig (some n.offset) = 0
      · simp only [if_pos zero, true_iff]
        exact .inl ⟨visited.1, visited.2, zero⟩
      · rw [if_neg zero, ih zero]
        constructor
        · exact .inr
        · rintro (⟨_, _, h⟩ | h)
          · exact absurd h zero
          · exact h
    · rw [if_neg visited, ih failed]
      constructor
      · exact .inr
      · rintro (⟨one, other, _⟩ | h)
        · exact absurd ⟨one, other⟩ visited
        · exact h

/-- The nodes one level down are the ones the loop tries. -/
lemma mem_subnodes {fdt : Fdt} {offset key : Nat} :
    key ∈ (fdt.subnodes offset).map (·.offset) ↔
      ∃ p ∈ fdt.walk offset, p.1 = 1 ∧ p.2.offset = key := by
  simp only [Fdt.subnodes, List.mem_map, List.mem_filter, beq_iff_eq]
  constructor
  · rintro ⟨_, ⟨p, ⟨mem, one⟩, rfl⟩, rfl⟩
    exact ⟨p, mem, one, rfl⟩
  · rintro ⟨p, mem, one, rfl⟩
    exact ⟨p.2, ⟨p, ⟨mem, one⟩, rfl⟩, rfl⟩

/-- Without a required key a signature is accepted exactly if the hinted key or a node of the last
loop verifies it; with one, also if that key does. -/
lemma rsaTry_eq_zero {fdt : Fdt} {info : SignInfo} {sigNode : Nat} {hash sig : List UInt8} :
    rsaTry c blob fdt info sigNode hash sig = 0 ↔
      (∃ key, info.requiredKeynode = some key ∧
        rsaVerifyWithKeynode c blob info hash sig (some key) = 0) ∨
      ∃ key, (hintNode blob info sigNode = some key ∨
          key ∈ (fdt.subnodes sigNode).map (·.offset)) ∧
        rsaVerifyWithKeynode c blob info hash sig (some key) = 0 := by
  have no_node : rsaVerifyWithKeynode c blob info hash sig none ≠ 0 := by
    simp [rsaVerifyWithKeynode, ebadf]
  rw [rsaTry]
  by_cases must : info.requiredKeynode ≠ none ∧
      rsaVerifyWithKeynode c blob info hash sig info.requiredKeynode = 0
  · obtain ⟨given, zero⟩ := must
    obtain ⟨key, is_key⟩ := Option.ne_none_iff_exists'.mp given
    rw [if_pos ⟨given, zero⟩]
    simp only [true_iff]
    exact .inl ⟨key, is_key, is_key ▸ zero⟩
  · have no_must : ¬∃ key, info.requiredKeynode = some key ∧
        rsaVerifyWithKeynode c blob info hash sig (some key) = 0 := by
      rintro ⟨key, is_key, zero⟩
      exact must ⟨by simp [is_key], is_key ▸ zero⟩
    rw [if_neg must, or_iff_right no_must]
    by_cases hinted : rsaVerifyWithKeynode c blob info hash sig (hintNode blob info sigNode) = 0
    · simp only [if_pos hinted, true_iff]
      cases hint : hintNode blob info sigNode with
      | none => exact absurd (hint ▸ hinted) no_node
      | some key => exact ⟨key, .inl rfl, hint ▸ hinted⟩
    · simp only [if_neg hinted]
      rw [tryKeys_eq_zero hinted]
      constructor
      · rintro ⟨p, mem, one, _, zero⟩
        exact ⟨p.2.offset, .inr (mem_subnodes.mpr ⟨p, mem, one, rfl⟩), zero⟩
      · rintro ⟨key, hint | mem, zero⟩
        · exact absurd (hint ▸ zero) hinted
        · obtain ⟨p, visited, one, rfl⟩ := mem_subnodes.mp mem
          refine ⟨p, visited, one, ?_, zero⟩
          intro same
          exact hinted (same ▸ zero)

/-! ## Signature subnodes -/

/-- The required key is only remembered. -/
lemma setupVerify_eq {noffset : Nat} {k : Option Nat} :
    fitImageSetupVerify fit noffset k =
      (fitImageSetupVerify fit noffset none).map fun i => { i with requiredKeynode := k } := by
  rw [fitImageSetupVerify, fitImageSetupVerify]
  cases fit.tree.getprop noffset "algo" with
  | none => rfl
  | some name =>
    simp only []
    cases imageGetSigAlgo (cstr name) <;> rfl

/-- The check of a signature subnode: what the checks for images and for configurations share. -/
def checkWith (c : Rsa) (blob : Fdt) (fit : FitImage)
    (regions : Nat → Except String (List (List UInt8))) (noffset : Nat) (k : Option Nat) : Bool :=
  match fitImageSetupVerify fit noffset k, fit.tree.getprop noffset "value", regions noffset with
  | .ok info, some sig, .ok region => rsaVerify c blob fit.tree info region sig == 0
  | _, _, _ => false

lemma imageCheckSig_eq {data : List UInt8} {noffset : Nat} {k : Option Nat} :
    (fitImageCheckSig c blob fit data noffset k).toBool =
      checkWith c blob fit (fun _ => .ok [data]) noffset k := by
  simp only [fitImageCheckSig, checkWith]
  cases fitImageSetupVerify fit noffset k with
  | error => rfl
  | ok info =>
    cases fit.tree.getprop noffset "value" with
    | none => rfl
    | some sig =>
      by_cases zero : rsaVerify c blob fit.tree info [data] sig = 0 <;>
        simp [zero, Except.toBool]

lemma configCheckSig_eq {noffset : Nat} {k : Option Nat} :
    (fitConfigCheckSig c blob fit noffset k).toBool =
      checkWith c blob fit (configRegions fit) noffset k := by
  simp only [fitConfigCheckSig, checkWith]
  cases fitImageSetupVerify fit noffset k with
  | error => rfl
  | ok info =>
    cases fit.tree.getprop noffset "value" with
    | none => rfl
    | some sig =>
      cases configRegions fit noffset with
      | error => rfl
      | ok region =>
        by_cases zero : rsaVerify c blob fit.tree info region sig = 0 <;>
          simp [zero, Except.toBool]

/-- The errors before a key is tried are not 0. -/
lemma rsaChecksum_error {info : SignInfo} {region : List (List UInt8)} {ret : Int}
    (h : rsaChecksum c blob info region = .error ret) : ret ≠ 0 := by
  simp only [rsaChecksum] at h
  split at h
  · cases h
    decide
  · split at h
    · cases h
      decide
    · split at h
      · cases h
        decide
      · cases h

/-- What is prepared is determined by the subnode. -/
lemma Prepared.unique {noffset : Nat} {info info' : SignInfo} {sigNode sigNode' : Nat}
    {hash hash' sig sig' : List UInt8} (p : Prepared c blob fit regions noffset info sigNode hash sig)
    (p' : Prepared c blob fit regions noffset info' sigNode' hash' sig') :
    info = info' ∧ sigNode = sigNode' ∧ hash = hash' ∧ sig = sig' := by
  obtain ⟨setup, value, _, found, checksum⟩ := p
  obtain ⟨setup', value', _, found', checksum'⟩ := p'
  cases setup.symm.trans setup'
  cases value.symm.trans value'
  cases found.symm.trans found'
  cases checksum.symm.trans checksum'
  exact ⟨rfl, rfl, rfl, rfl⟩

lemma Prepared.verifies_iff {noffset key : Nat} {info : SignInfo} {sigNode : Nat}
    {hash sig : List UInt8} (p : Prepared c blob fit regions noffset info sigNode hash sig) :
    Verifies c blob fit regions noffset key ↔
      rsaVerifyWithKeynode c blob info hash sig (some key) = 0 := by
  constructor
  · rintro ⟨_, _, _, _, p', zero⟩
    obtain ⟨rfl, rfl, rfl, rfl⟩ := p.unique p'
    exact zero
  · intro zero
    exact ⟨info, sigNode, hash, sig, p, zero⟩

lemma Prepared.fallsBack_iff {noffset : Nat} {info : SignInfo} {sigNode : Nat}
    {hash sig : List UInt8} (p : Prepared c blob fit regions noffset info sigNode hash sig) :
    FallsBack c blob fit regions noffset ↔
      ∃ key, (hintNode blob info sigNode = some key ∨
          key ∈ (fit.tree.subnodes sigNode).map (·.offset)) ∧
        rsaVerifyWithKeynode c blob info hash sig (some key) = 0 := by
  constructor
  · rintro ⟨_, _, _, _, p', tried⟩
    obtain ⟨rfl, rfl, rfl, rfl⟩ := p.unique p'
    exact tried
  · intro tried
    exact ⟨info, sigNode, hash, sig, p, tried⟩

/-- A signature checked with a required key, or with none, is accepted exactly if it verifies under
that key or falls back. -/
lemma checkWith_iff {noffset : Nat} {k : Option Nat} :
    checkWith c blob fit regions noffset k = true ↔
      (∃ key, k = some key ∧ Verifies c blob fit regions noffset key) ∨
      FallsBack c blob fit regions noffset := by
  have prepared (h : (∃ key, k = some key ∧ Verifies c blob fit regions noffset key) ∨
      FallsBack c blob fit regions noffset) :
      ∃ info sigNode hash sig, Prepared c blob fit regions noffset info sigNode hash sig := by
    rcases h with ⟨_, _, info, sigNode, hash, sig, prep, _⟩ | ⟨info, sigNode, hash, sig, prep, _⟩
    · exact ⟨info, sigNode, hash, sig, prep⟩
    · exact ⟨info, sigNode, hash, sig, prep⟩
  rw [checkWith, setupVerify_eq]
  cases setup : fitImageSetupVerify fit noffset none with
  | error msg =>
    simp only [Except.map, Bool.false_eq_true, false_iff]
    intro h
    obtain ⟨_, _, _, _, prep⟩ := prepared h
    cases setup.symm.trans prep.setup
  | ok info =>
    cases value : fit.tree.getprop noffset "value" with
    | none =>
      simp only [Except.map, Bool.false_eq_true, false_iff]
      intro h
      obtain ⟨_, _, _, _, prep⟩ := prepared h
      cases value.symm.trans prep.value
    | some sig =>
      cases found : regions noffset with
      | error msg =>
        simp only [Except.map, Bool.false_eq_true, false_iff]
        intro h
        obtain ⟨_, _, _, _, prep⟩ := prepared h
        obtain ⟨_, found', _⟩ := prep.checksum
        cases found.symm.trans found'
      | ok region =>
        simp only [Except.map, beq_iff_eq]
        rw [rsaVerify]
        have same : rsaChecksum c blob { info with requiredKeynode := k } region =
            rsaChecksum c blob info region := rfl
        rw [same]
        cases checksum : rsaChecksum c blob info region with
        | error ret =>
          simp only [rsaChecksum_error checksum, false_iff]
          intro h
          obtain ⟨_, _, _, _, prep⟩ := prepared h
          cases setup.symm.trans prep.setup
          obtain ⟨_, found', checksum'⟩ := prep.checksum
          cases found.symm.trans found'
          cases checksum.symm.trans checksum'
        | ok r =>
          obtain ⟨sigNode, hash⟩ := r
          have prep : Prepared c blob fit regions noffset info sigNode hash sig :=
            ⟨setup, value, region, found, checksum⟩
          simp only []
          rw [rsaTry_eq_zero]
          simp only [prep.verifies_iff, prep.fallsBack_iff, verifyWithKeynode_required]
          rfl

/-! ## Required keys -/

/-- The loop over the required keys succeeds exactly if each of them does. -/
lemma verifyEach_eq_zero {verify : Nat → Int} {keys : List Nat} :
    verifyEach verify keys = 0 ↔ ∀ k ∈ keys, verify k = 0 := by
  induction keys with
  | nil => simp [verifyEach]
  | cons k keys ih =>
    rw [verifyEach, List.forall_mem_cons]
    by_cases zero : verify k = 0
    · rw [if_neg (not_not.mpr zero), ih]
      exact (and_iff_right zero).symm
    · rw [if_pos zero]
      exact ⟨fun h => absurd h zero, fun h => absurd h.1 zero⟩

/-- For an image the required key is not looked at. -/
lemma imageVerifySig_eq_zero {image key : Nat} {data : List UInt8} :
    fitImageVerifySig c blob fit image data key = 0 ↔
      ∃ s ∈ sigNodes fit image, FallsBack c blob fit (fun _ => .ok [data]) s := by
  rw [fitImageVerifySig]
  simp only [imageCheckSig_eq]
  split
  next accepted =>
    obtain ⟨s, mem, ok⟩ := List.any_eq_true.mp accepted
    rcases checkWith_iff.mp ok with ⟨_, none, _⟩ | falls
    · cases none
    · exact iff_of_true rfl ⟨s, mem, falls⟩
  next refused =>
    refine iff_of_false (by decide) ?_
    rintro ⟨s, mem, falls⟩
    exact refused (List.any_eq_true.mpr ⟨s, mem, checkWith_iff.mpr (.inr falls)⟩)

/-- For a configuration it is the first key that is tried. -/
lemma configVerifySig_eq_zero {conf key : Nat} :
    fitConfigVerifySig c blob fit conf key = 0 ↔
      ∃ s ∈ sigNodes fit conf, Verifies c blob fit (configRegions fit) s key ∨
        FallsBack c blob fit (configRegions fit) s := by
  rw [fitConfigVerifySig]
  simp only [configCheckSig_eq]
  split
  next accepted =>
    obtain ⟨s, mem, ok⟩ := List.any_eq_true.mp accepted
    refine iff_of_true rfl ⟨s, mem, ?_⟩
    rcases checkWith_iff.mp ok with ⟨_, is_key, verifies⟩ | falls
    · cases is_key
      exact .inl verifies
    · exact .inr falls
  next refused =>
    refine iff_of_false (by decide) ?_
    rintro ⟨s, mem, verifies | falls⟩
    · exact refused (List.any_eq_true.mpr ⟨s, mem, checkWith_iff.mpr (.inl ⟨key, rfl, verifies⟩)⟩)
    · exact refused (List.any_eq_true.mpr ⟨s, mem, checkWith_iff.mpr (.inr falls)⟩)

/-- Every key required for images is enforced: a result of 0 means that each of them verifies some
signature subnode of the image. -/
def ImageKeysEnforced (c : Rsa) (blob : Fdt) (fit : FitImage) (image : Nat) (data : List UInt8) :
    Prop :=
  (fitImageVerifyRequiredSigs c blob fit image data).1 = 0 →
    ∀ k ∈ requiredKeys blob "image", ∃ s ∈ sigNodes fit image,
      Verifies c blob fit (fun _ => .ok [data]) s k

/-- The same for configurations. -/
def ConfigKeysEnforced (c : Rsa) (blob : Fdt) (fit : FitImage) (conf : Nat) : Prop :=
  fitConfigVerifyRequiredSigs c blob fit conf = 0 →
    ∀ k ∈ requiredKeys blob "conf", ∃ s ∈ sigNodes fit conf,
      Verifies c blob fit (configRegions fit) s k

/-- The required keys are enforced exactly where no signature subnode falls back, or where each
required key has made a signature of its own. -/
theorem required_sigs_iff (c : Rsa) (blob : Fdt) (fit : FitImage) (image conf : Nat)
    (data : List UInt8) :
    (ImageKeysEnforced c blob fit image data ↔
      (∀ s ∈ sigNodes fit image, ¬FallsBack c blob fit (fun _ => .ok [data]) s) ∨
      ∀ k ∈ requiredKeys blob "image", ∃ s ∈ sigNodes fit image,
        Verifies c blob fit (fun _ => .ok [data]) s k) ∧
    (ConfigKeysEnforced c blob fit conf ↔
      (∀ s ∈ sigNodes fit conf, ¬FallsBack c blob fit (configRegions fit) s) ∨
      ∀ k ∈ requiredKeys blob "conf", ∃ s ∈ sigNodes fit conf,
        Verifies c blob fit (configRegions fit) s k) := by
  constructor
  · simp only [ImageKeysEnforced, fitImageVerifyRequiredSigs, verifyEach_eq_zero,
      imageVerifySig_eq_zero]
    constructor
    · intro enforced
      by_cases falls : ∃ s ∈ sigNodes fit image, FallsBack c blob fit (fun _ => .ok [data]) s
      · exact .inr (enforced fun _ _ => falls)
      · exact .inl fun s mem fb => falls ⟨s, mem, fb⟩
    · rintro (none | own) accepted k required
      · obtain ⟨s, mem, fb⟩ := accepted k required
        exact absurd fb (none s mem)
      · exact own k required
  · simp only [ConfigKeysEnforced, fitConfigVerifyRequiredSigs, verifyEach_eq_zero,
      configVerifySig_eq_zero]
    constructor
    · intro enforced
      by_cases falls : ∃ s ∈ sigNodes fit conf, FallsBack c blob fit (configRegions fit) s
      · obtain ⟨s, mem, fb⟩ := falls
        exact .inr (enforced fun _ _ => ⟨s, mem, .inr fb⟩)
      · exact .inl fun s mem fb => falls ⟨s, mem, fb⟩
    · rintro (none | own) accepted k required
      · obtain ⟨s, mem, verifies | fb⟩ := accepted k required
        · exact ⟨s, mem, verifies⟩
        · exact absurd fb (none s mem)
      · exact own k required

/-- A signature verifies only under the key that made it. -/
def OnlyMaker (c : Rsa) : Prop :=
  ∀ p q sig hash algo, c.verifyKey p sig hash algo = 0 → c.verifyKey q sig hash algo = 0 →
    p.modulus = q.modulus

/-- A scheme with the modulus of the maker as the signature. -/
def modulusRsa : Rsa where
  calculate _ _ := some []
  verifyKey p sig _ _ := if sig = p.modulus then 0 else -13

/-- Two keys, the first one required for images. -/
def twoKeys : Fdt :=
  [{ offset := 0, depth := 0, name := "", props := [] },
   { offset := 8, depth := 1, name := "signature", props := [] },
   { offset := 24, depth := 2, name := "key-dev", props :=
     [("required", [105, 109, 97, 103, 101, 0]), ("rsa,num-bits", [0, 0, 8, 0]),
      ("rsa,modulus", [1])] },
   { offset := 120, depth := 2, name := "key-any", props :=
     [("rsa,num-bits", [0, 0, 8, 0]), ("rsa,modulus", [2])] }]

/-- An image signed by the second key, which its name hint says. -/
def signedByOther : FitImage where
  tree :=
    [{ offset := 0, depth := 0, name := "", props := [] },
     { offset := 60, depth := 1, name := "kernel", props := [] },
     { offset := 96, depth := 2, name := "signature@1", props :=
       [("algo", [115, 104, 97, 49, 44, 114, 115, 97, 50, 48, 52, 56, 0]),
        ("key-name-hint", [97, 110, 121, 0]), ("value", [2])] }]
  findRegions _ := .error (-1)
  dtStrings _ _ := []

/-- An image without a signature of the required key is taken for a verified one. -/
theorem required_key_not_enforced :
    ¬∀ (c : Rsa) (blob : Fdt) (fit : FitImage) (image conf : Nat) (data : List UInt8),
      OnlyMaker c → ImageKeysEnforced c blob fit image data ∧ ConfigKeysEnforced c blob fit conf := by
  intro enforced
  have maker : OnlyMaker modulusRsa := by
    intro p q sig hash algo hp hq
    simp only [modulusRsa, ite_eq_left_iff, Int.reduceNeg, Int.neg_eq_zero] at hp hq
    by_contra differ
    by_cases h : sig = p.modulus
    · exact absurd (hq fun h' => differ (h.symm.trans h')) (by decide)
    · exact absurd (hp h) (by decide)
  have accepted : (fitImageVerifyRequiredSigs modulusRsa twoKeys signedByOther 60 []).1 = 0 := by
    decide
  have required : 24 ∈ requiredKeys twoKeys "image" := by decide
  obtain ⟨s, mem, _, _, _, sig, prep, zero⟩ :=
    (enforced modulusRsa twoKeys signedByOther 60 0 [] maker).1 accepted 24 required
  have only : sigNodes signedByOther 60 = [96] := by decide
  rw [only, List.mem_singleton] at mem
  subst mem
  have value : signedByOther.tree.getprop 96 "value" = some [2] := by decide
  cases value.symm.trans prep.value
  have modulus : (keyProp twoKeys 24).map (·.modulus) = some [1] := by decide
  cases key : keyProp twoKeys 24 with
  | none =>
    rw [key] at modulus
    cases modulus
  | some prop =>
    rw [key, Option.map_some, Option.some.injEq] at modulus
    simp [rsaVerifyWithKeynode, key, modulusRsa, modulus] at zero

end Imx.Fit
