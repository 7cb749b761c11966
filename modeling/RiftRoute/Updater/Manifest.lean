/-
Module: RiftRoute.Updater.Manifest
Purpose: Signed manifests and the update rules: a manifest counts only if its
  exact bytes verify and validate.
Trusted boundary: human-reviewed spec
-/
import RiftRoute.Safety.Recovery
import RiftRoute.Library.Bytes

namespace RiftRoute

namespace Updater

open Texts

/-! ### Versions -/

/-- `strconv.Atoi` of a part without a sign. -/
def atoiDigits (part : List Char) : Option Nat :=
  if part = [] ∨ ¬ part.all Char.isDigit then none
  else
    let n := part.foldl (fun n c => n * 10 + (c.toNat - '0'.toNat)) 0
    if n < 2 ^ 63 then some n else none

/-- A version's three numbers; what follows a hyphen or a plus is dropped. -/
def parseSemver (v : String) : Option (Nat × Nat × Nat) :=
  let v := trimPrefix (trimSpace v) "v"
  let parts := splitOn '.' (v.toList.takeWhile fun c => c ≠ '-' ∧ c ≠ '+')
  match parts.map atoiDigits with
  | [some major, some minor, some patch] => some (major, minor, patch)
  | _ => none

def newer (current candidate : String) : Bool :=
  match parseSemver current, parseSemver candidate with
  | some (a, b, c), some (x, y, z) =>
    if x ≠ a then a < x else if y ≠ b then b < y
    else if z ≠ c then c < z else false
  | _, _ => false

/-- A plain release version, with no suffix. -/
def isRelease (v : String) : Bool :=
  let v := trimPrefix (trimSpace v) "v"
  !v.toList.any (fun c => c = '-' ∨ c = '+') && (parseSemver v).isSome

/-! ### Manifests -/

structure ManifestAsset where
  os : String
  arch : String
  kind : String
  url : String
  sha256 : String
  size : Int
deriving DecidableEq, Repr

/-- One signed release on one channel; times are in seconds. -/
structure Manifest where
  schema : Int
  channel : String
  version : String
  published : Int
  minFrom : String
  assets : List ManifestAsset
deriving DecidableEq, Repr

structure Signature where
  keyID : String
  alg : String
  sig : String
deriving DecidableEq, Repr

/-- The server's unsigned rollout control. -/
structure Advice where
  rolloutPercent : Int
  halt : Bool
deriving DecidableEq, Repr

def manifestSchema : Int := 1

def maxAssetSize : Int := 200 * 2 ^ 20

/-- What is read with libraries: signature files, base64, ed25519, manifests,
URLs, SHA-256 in hex. -/
structure Codec (Key : Type) where
  parseSignature : Bytes → Option Signature
  decodeBase64 : String → Option Bytes
  verifies : Key → Bytes → Bytes → Bool
  parseManifest : Bytes → Option Manifest
  allowedAssetURL : String → Bool
  sha256 : Bytes → String

variable {Key : Type} (codec : Codec Key)

/-- 64 lower-case hexadecimal digits. -/
def isSHA256 (s : String) : Bool :=
  s.toList.length = 64 && s.toList.all fun c => c.isDigit || ('a' ≤ c && c ≤ 'f')

/-- A lower-case letter, then up to 31 lower-case letters, digits and
hyphens. -/
def isChannel (s : String) : Bool :=
  match s.toList with
  | [] => false
  | c :: rest =>
    c.isLower && rest.length ≤ 31 && rest.all fun c => c.isLower || c.isDigit || c = '-'

def ManifestAsset.key (a : ManifestAsset) : String := a.os ++ "/" ++ a.arch ++ "/" ++ a.kind

/-- The assets after those seen; the error of the first that is refused. -/
def checkAssets (seen : List String) : List ManifestAsset → Except String Unit
  | [] => .ok ()
  | a :: rest =>
    if a.os = "" ∨ a.arch = "" ∨ a.kind = "" then
      .error ("manifest asset " ++ a.url.quote ++ ": os, arch and kind are required")
    else if a.key ∈ seen then .error ("manifest lists " ++ a.key ++ " twice")
    else if ¬ codec.allowedAssetURL a.url then
      .error ("manifest asset URL " ++ a.url.quote ++ " not allowed")
    else if ¬ isSHA256 a.sha256 then
      .error ("manifest asset " ++ a.key ++ ": bad sha256")
    else if a.size ≤ 0 ∨ maxAssetSize < a.size then
      .error ("manifest asset " ++ a.key ++ ": size " ++ toString a.size ++ " out of range")
    else checkAssets (a.key :: seen) rest

def Manifest.validate (m : Manifest) : Except String Unit :=
  if m.schema ≠ manifestSchema then
    .error ("manifest schema " ++ toString m.schema ++ " not supported (want " ++
      toString manifestSchema ++ ")")
  else if ¬ isChannel m.channel then
    .error ("manifest channel " ++ m.channel.quote ++ " invalid")
  else if ¬ isRelease m.version then
    .error ("manifest version " ++ m.version.quote ++ " is not a release version")
  else if m.minFrom ≠ "" ∧ ¬ isRelease m.minFrom then
    .error ("manifest min_from " ++ m.minFrom.quote ++ " invalid")
  else if m.assets = [] then .error "manifest lists no assets"
  else checkAssets codec [] m.assets

def Manifest.asset (m : Manifest) (goos goarch kind : String) : Option ManifestAsset :=
  m.assets.find? fun a => a.os = goos ∧ a.arch = goarch ∧ a.kind = kind

/-- Check a signature over the exact bytes of a manifest, then read it;
nothing in an unverified manifest is looked at. -/
def verifyManifest (trusted : String → Option Key) (manifest sig : Bytes) :
    Except String Manifest :=
  match codec.parseSignature sig with
  | none => .error "signature file"
  | some s =>
    if s.alg ≠ "ed25519" then
      .error ("signature algorithm " ++ s.alg.quote ++ " not supported")
    else
      match trusted s.keyID with
      | none => .error ("manifest signed by an unknown key (" ++ s.keyID ++ ")")
      | some pub =>
        match codec.decodeBase64 s.sig with
        | none => .error "manifest signature does not verify"
        | some raw =>
          if raw.length ≠ 64 ∨ ¬ codec.verifies pub manifest raw then
            .error "manifest signature does not verify"
          else
            match codec.parseManifest manifest with
            | none => .error "manifest"
            | some m => (m.validate codec).map fun _ => m

/-- The exact bytes of a manifest verify under a trusted key. -/
structure Verified (trusted : String → Option Key) (raw sig : Bytes)
    (m : Manifest) : Prop where
  signed : ∃ s pub code, codec.parseSignature sig = some s ∧
    trusted s.keyID = some pub ∧ codec.decodeBase64 s.sig = some code ∧
    codec.verifies pub raw code = true
  parsed : codec.parseManifest raw = some m
  valid : m.validate codec = .ok ()

theorem verified_of_verify {trusted : String → Option Key} {raw sig : Bytes}
    {m : Manifest} (verified : verifyManifest codec trusted raw sig = .ok m) :
    Verified codec trusted raw sig m := by
  revert verified
  fun_cases verifyManifest with
  | case7 s parsedSignature _ pub trustedKey code decoded signed parsed manifest =>
    cases valid : parsed.validate codec with
    | error text => rintro ⟨⟩
    | ok =>
      rintro ⟨⟩
      rw [not_or, not_not] at signed
      exact ⟨⟨s, pub, code, parsedSignature, trustedKey, decoded,
        not_not.mp signed.2⟩, manifest, valid⟩
  | _ => rintro ⟨⟩

/-! ### The update rules -/

inductive Action where
  | none
  | hold
  | notify
  | install
deriving DecidableEq, Repr

structure Decision where
  action : Action
  reason : String
deriving DecidableEq, Repr

inductive UpdateMode where
  | auto
  | notify
  | off
deriving DecidableEq, Repr

structure DecideInput where
  current : String
  mode : UpdateMode
  manifest : Manifest
  advice : Option Advice
  bucket : Nat
  goos : String
  goarch : String
  selfUpdatable : Bool
  skip : String

def clampPercent (p : Int) : Int :=
  if p < 0 then 0 else if 100 < p then 100 else p

/-- What the server's advice holds back. -/
def heldBack (version : String) (bucket : Nat) : Option Advice → Option Decision
  | .none => .none
  | some advice =>
    if advice.halt then
      some ⟨.hold, "the rollout of " ++ version ++ " is paused"⟩
    else if clampPercent advice.rolloutPercent ≤ bucket then
      some ⟨.hold, version ++ " is rolling out gradually (" ++
        toString (clampPercent advice.rolloutPercent) ++ "%)"⟩
    else .none

def notifyOrInstall (i : DecideInput) : Decision :=
  let m := i.manifest
  if i.mode ≠ .auto then ⟨.notify, m.version ++ " is available"⟩
  else if ¬ isRelease i.current then
    ⟨.notify, m.version ++ " is available (this is a development build; install it yourself)"⟩
  else if ¬ i.selfUpdatable then
    ⟨.notify, m.version ++ " is available (this install is managed " ++
      "elsewhere; update it the way you installed it)"⟩
  else if m.minFrom ≠ "" ∧ newer i.current m.minFrom then
    ⟨.notify, m.version ++ " is available (too big a jump from " ++ i.current ++
      " to install on its own)"⟩
  else ⟨.install, "installing " ++ m.version⟩

/-- A newer version is required first; then the server's advice can only hold
it back; then preference and situation decide. -/
def decideUpdate (i : DecideInput) : Decision :=
  let m := i.manifest
  if i.mode = .off then ⟨.none, "updates are off"⟩
  else if ¬ newer i.current m.version then ⟨.none, "up to date"⟩
  else if i.skip ≠ "" ∧ ¬ newer i.skip m.version then
    ⟨.none, m.version ++ " didn't work on this computer and is skipped; " ++
      "a newer release will be offered"⟩
  else
    match heldBack m.version i.bucket i.advice with
    | some held => held
    | .none =>
      if (m.asset i.goos i.goarch "tarball").isNone then
        ⟨.notify, m.version ++ " is available (no automatic install for " ++
          i.goos ++ "/" ++ i.goarch ++ ")"⟩
      else notifyOrInstall i

/-- The version is newer than the running one and than the one skipped. -/
structure Wanted (current skip version : String) : Prop where
  newer : Updater.newer current version = true
  unskipped : skip = "" ∨ Updater.newer skip version = true

theorem heldBack_hold {version : String} {bucket : Nat} {advice : Option Advice}
    {held : Decision} (holds : heldBack version bucket advice = some held) :
    held.action = .hold := by
  revert holds
  fun_cases heldBack <;> rintro ⟨⟩ <;> rfl

theorem notifyOrInstall_auto {i : DecideInput}
    (install : (notifyOrInstall i).action = .install) : i.mode = .auto := by
  rw [notifyOrInstall] at install
  split at install
  · cases install
  · next auto => exact not_not.mp auto

theorem decideUpdate_install {i : DecideInput} (install : (decideUpdate i).action = .install) :
    Wanted i.current i.skip i.manifest.version ∧
      (i.manifest.asset i.goos i.goarch "tarball").isSome ∧ i.mode = .auto ∧
      ∀ advice ∈ i.advice, advice.halt = false := by
  revert install
  fun_cases decideUpdate with
  | case4 _ _ _ _ held isHeld =>
    rw [heldBack_hold isHeld]
    rintro ⟨⟩
  | case6 m _ isNewer unskipped notHeld hasAsset =>
    intro install
    refine ⟨⟨not_not.mp isNewer, ?_⟩, ?_, notifyOrInstall_auto install, ?_⟩
    · rw [not_and_or, not_not, not_not] at unskipped
      exact unskipped
    · rwa [Option.isNone_iff_eq_none, ← ne_eq, Option.ne_none_iff_isSome] at hasAsset
    · intro advice given
      rw [Option.mem_def.mp given, heldBack] at notHeld
      cases halted : advice.halt with
      | false => rfl
      | true => simp [halted] at notHeld
  | _ => rintro ⟨⟩

end Updater

end RiftRoute
