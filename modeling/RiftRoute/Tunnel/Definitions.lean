/-
Module: RiftRoute.Tunnel.Definitions
Purpose: Tunnel definitions: what a client submits, the checks of a save, and
  the definition it stores.  How a driver reads a configuration text is a
  parameter.  The check of the addressing a tunnel's server chose.
Trusted boundary: human-reviewed spec
-/
import RiftRoute.Config.Validate
import RiftRoute.Library.Folds

namespace RiftRoute

open Netip (Addr Prefix)
open Texts (trimSpace)

/-! ### What a client submits -/

inductive TunnelType where
  | unset
  | openvpn
  | wireguard
  | ikev2
  | other (text : String)
deriving DecidableEq, Repr

def TunnelType.text : TunnelType → String
  | .unset => ""
  | .openvpn => "openvpn"
  | .wireguard => "wireguard"
  | .ikev2 => "ikev2"
  | .other text => text

def TunnelType.supported : TunnelType → Bool
  | .openvpn | .wireguard | .ikev2 => true
  | _ => false

inductive TunnelVia where
  | unset
  | direct
  | systemDefault
  | other (text : String)
deriving DecidableEq, Repr

inductive TunnelWhenDown where
  | unset
  | fallback
  | block
  | other (text : String)
deriving DecidableEq, Repr

structure TunnelSpec where
  name : String
  type : TunnelType := .unset
  config : String := ""
  username : String := ""
  password : String := ""
  via : TunnelVia := .unset
  routes : List String := []
  autoConnect : Bool := false
  whenDown : TunnelWhenDown := .unset
deriving DecidableEq, Repr

/-- A stored definition. -/
structure Def where
  name : String
  type : TunnelType
  config : String
  username : String := ""
  password : String := ""
  via : TunnelVia := .direct
  routes : List String := []
  autoConnect : Bool := false
  whenDown : TunnelWhenDown := .unset
deriving DecidableEq, Repr

/-- The tunnel refuses its destinations while it is down. -/
def Def.blocks (d : Def) : Bool := d.whenDown = .block

/-! ### Drivers -/

inductive Proto where
  | udp
  | tcp
deriving DecidableEq, Repr

def Proto.text : Proto → String
  | .udp => "udp"
  | .tcp => "tcp"

structure Remote where
  host : String
  port : Nat
  proto : Proto
deriving DecidableEq, Repr

/-- What a driver reads out of a configuration text. -/
structure Parsed where
  remotes : List Remote := []
  needsAuth : Bool := false
  inlineUser : String := ""
  inlinePass : String := ""
  /-- An IKEv2 profile's way of logging in, as messages name it. -/
  ikeLogin : String := ""
deriving DecidableEq, Repr

/-- How the drivers read the texts of their types. -/
structure Drivers where
  parse : TunnelType → String → Except String Parsed

def Drivers.read (drivers : Drivers) (type : TunnelType) (config : String) : Except String Parsed :=
  if type.supported then drivers.parse type config
  else .error ("unsupported tunnel type " ++ type.text.quote)

/-- The literal server addresses of a configuration. -/
def configServers (p : Parsed) : List Addr :=
  (p.remotes.filterMap fun rm => Netip.parseAddr rm.host).foldl
    (fun servers a => addNew id servers a.unmap) []

def hasHostname (rs : List Remote) : Bool := rs.any fun r => (Netip.parseAddr r.host).isNone

/-! ### The checks of a save -/

/-- A usable tunnel name: it names files. -/
def validName (s : String) : Bool :=
  let plain (c : Char) : Bool := ('a' ≤ c ∧ c ≤ 'z') || c.isDigit
  match s.toList with
  | [] => false
  | first :: rest =>
    plain first && rest.length ≤ 31 && rest.all fun c => plain c || c = '_' || c = '-'

def orString (s other : String) : String := if s ≠ "" then s else other

/-- One listed route: nothing for a blank, the route, or why not. -/
def normalizeRoute (v : String) : Option (Except String String) :=
  let v := trimSpace v
  if v = "" then none
  else
    match (Netip.parsePrefix v).or ((Netip.parseAddr v).map Prefix.host) with
    | none => some (.error (v.quote ++ " is not an IP address or CIDR"))
    | some pfx =>
      if pfx.bits = 0 then
        some (.error (v ++ " would send ALL traffic into the tunnel; " ++
          "list the networks behind it instead"))
      else if pfx.bits = pfx.addr.bitLen then some (.ok pfx.addr.text)
      else some (.ok pfx.masked.text)

/-- The routes of a submission, each once, and what is wrong with the
others. -/
def normalizeRoutes (routes : List String) : List String × List String :=
  if 256 < routes.length then ([], ["at most 256 routes per tunnel"])
  else
    (routes.filterMap normalizeRoute).foldl (fun (out, errs) route =>
        match route with
        | .error e => (out, errs ++ [e])
        | .ok s => (addNew id out s, errs))
      ([], [])

variable (spec : TunnelSpec) (prev : Option Def)

/-- The checks that need no stored definition. -/
def specIssues : List Issue :=
  require (validName spec.name) "name" ("use 1–32 lowercase letters, digits, - or _ " ++
        "(starting with a letter or digit)") ++
    require spec.type.supported "type" ("unsupported tunnel type " ++ spec.type.text.quote ++
        " (ikev2, openvpn, wireguard)") ++
    require (spec.via = .direct || spec.via = .systemDefault) "via"
      "via must be \"direct\" or \"default\"" ++
    require (spec.whenDown = .unset || spec.whenDown = .fallback ||
        spec.whenDown = .block) "when_down"
      "when_down must be \"fallback\" or \"block\"" ++
    (normalizeRoutes spec.routes).2.map (Issue.mk .error "routes") ++
    require ((spec.username ++ spec.password).toList.all fun c =>
        c ≠ '\r' && c ≠ '\n' && c ≠ '\x00') "username"
      "username and password can't contain line breaks" ++
    require (spec.type ≠ .wireguard || spec.username = "" && spec.password = "") "username"
      ("a WireGuard tunnel has no username or password; " ++ "its keys are in the configuration")

/-- The definition a submission asks for. -/
def specDef : Def where
  name := spec.name
  type := spec.type
  config := spec.config
  username := spec.username
  password := spec.password
  via := spec.via
  routes := (normalizeRoutes spec.routes).1
  autoConnect := spec.autoConnect
  whenDown :=
    -- A client from before the setting keeps it; the default is stored as a
    -- definition from before it.
    let asked :=
      match spec.whenDown, prev with
      | .unset, some p => p.whenDown
      | asked, _ => asked
    if asked = .fallback then .unset else asked

/-- Values left empty keep the stored ones, and whether the password did. -/
def keepStored (d : Def) : Def × Bool :=
  match prev with
  | none => (d, false)
  | some p =>
    if p.type = d.type then
      ({ d with
          config := orString d.config p.config
          username := orString d.username p.username
          password := orString d.password p.password },
        d.password = "" && p.password ≠ "")
    else (d, false)

def configRequired (type : TunnelType) : String :=
  match type with
  | .wireguard => "a WireGuard configuration (.conf) is required"
  | .ikev2 => "a configuration profile (.mobileconfig) is required"
  | _ => "an OpenVPN profile (.ovpn) is required"

/-- The login of a definition, checked against what its configuration says.  A
kept password goes only to the configuration it was entered for. -/
def withLogin (keptPassword : Bool)
    (p : Parsed) (d : Def) : Def × List Issue :=
  let replaced := keptPassword && prev.any fun before => before.config ≠ d.config
  let login :=
    { d with
      username := orString d.username p.inlineUser
      password := orString (if replaced then "" else d.password) p.inlinePass }
  (login, require (!(replaced && p.needsAuth && p.inlinePass = "")) "password"
        "the profile changed; enter the password again" ++
      require (!(d.type = .ikev2 && !p.needsAuth &&
          (spec.username ≠ "" || spec.password ≠ ""))) "username"
        ("this profile logs in with " ++ p.ikeLogin ++ "; it takes no username or password") ++
      require (!(p.needsAuth && login.username = "")) "username"
        ("this profile logs in with a username and password; " ++ "the username is required") ++
      require (!(p.needsAuth && login.password = "")) "password"
        ("this profile logs in with a username and password; " ++ "the password is required"))

/-- The definition with its configuration checked. -/
def withConfig (drivers : Drivers) (spec : TunnelSpec) (prev : Option Def)
    (keptPassword : Bool) (d : Def) : Def × List Issue :=
  if isBlank d.config then
    (d, [Issue.mk .error "config" (configRequired d.type)])
  else if ¬ d.type.supported then (d, [])
  else
    match drivers.read d.type d.config with
    | .error e => (d, [Issue.mk .error "config" e])
    | .ok p => withLogin spec prev keptPassword p d

/-- The definition a save stores, or what is wrong with the submission. -/
def savedDef (drivers : Drivers) (spec : TunnelSpec) (prev : Option Def) :
    Except (List Issue) Def :=
  let (d, keptPassword) := keepStored prev (specDef spec prev)
  let (d, issues) := withConfig drivers spec prev keptPassword d
  if specIssues spec ++ issues = [] then .ok d
  else .error (specIssues spec ++ issues)

end RiftRoute

namespace RiftRoute.Addressing

open Netip

variable (n : Prefix) (nets : List Prefix)

def insideAny : Bool := nets.any (·.covers n)

/-- 10/8, 172.16/12, 192.168/16 and 100.64/10. -/
def privateV4 : List Prefix :=
  [⟨.v4 0x0a000000#32, 8, rfl, by decide⟩, ⟨.v4 0xac100000#32, 12, rfl, by decide⟩,
    ⟨.v4 0xc0a80000#32, 16, rfl, by decide⟩, ⟨.v4 0x64400000#32, 10, rfl, by decide⟩]

def isULA : Addr → Bool
  | .v4 _ => false
  | .v6 bits _ => bits >>> 121 = 0x7e

structure Iface where
  name : String
  addrs : List String
  isVPN : Bool := false

/-- What a tunnel's addressing is checked against. -/
structure Env where
  iface : String
  ifaces : List Iface := []
  /-- Gateways, resolvers and watchdog anchors. -/
  guarded : List Addr := []
  /-- The tunnel's own servers. -/
  servers : List Addr := []
  /-- The routes RiftRoute puts into the tunnel for the user. -/
  ours : List Prefix := []
  configured : Bool := false
  routes : List Route := []

def holdsProtected (env : Env) : Option String :=
  (env.guarded.findSome? fun p =>
    if n.contains p.unmap then
      some ("holds " ++ p.text ++ " (your router, DNS server or connectivity check)")
    else none).or
  (env.servers.findSome? fun s =>
    if n.contains s.unmap then some ("holds the tunnel's own server " ++ s.text) else none)

/-- What an OS routes into any interface on its own, told by the first address. -/
def plumbing (p : Prefix) : Bool :=
  p.addr.isMulticast || p.addr = .v4 0xffffffff#32 || p.addr.is6 && p.addr.isLinkLocalUnicast

/-- A host beside a local IPv4 address, in the same /30. -/
def peer30 (dst : Prefix) (nets : List Prefix) : Bool :=
  !dst.addr.is6 && dst.bits = 32 &&
    nets.any fun n => !n.addr.is6 && n.addr.lead 30 = dst.addr.lead 30

/-- What an interface's address puts on it. -/
def reach (o : Prefix) (ifc : Iface) (routes : List Route) : List Prefix :=
  if !ifc.isVPN || routes.isEmpty then [o.masked]
  else .host o.addr :: (routes.filter (·.iface = ifc.name)).filterMap fun r =>
    ((parsePrefix r.dstCIDR).map Prefix.masked).filter (insideAny · [o.masked])

def tooWide : Bool :=
  if n.addr.is6 then n.bits < if isULA n.addr then 48 else 64
  else n.bits < if insideAny n privateV4 then 16 else 32

def overlapping (env : Env) : Option String :=
  (env.ifaces.filter (·.name ≠ env.iface)).findSome? fun ifc =>
    (ifc.addrs.filterMap parsePrefix).findSome? fun o =>
      if o.addr.isLoopback || o.addr.isLinkLocalUnicast then none
      else (reach o ifc env.routes).findSome? fun r =>
        if r.covers n || n.covers r then some ("overlaps " ++ r.text ++ " on " ++ ifc.name)
        else none

/-- Why a network, or a single peer, cannot be the tunnel's. -/
def vetNetwork (env : Env) : Option String :=
  if n.addr.isLoopback || n.addr.isUnspecified || n.addr.isMulticast ||
      n.addr.isLinkLocalUnicast then
    some "isn't a usable tunnel address"
  else if tooWide n then some "is wider than a tunnel's own network may be"
  else (holdsProtected n env).or (overlapping n env)

/-- The networks that are vetted: all but every interface's fe80::/64. -/
def ownNets : List Prefix :=
  (nets.map Prefix.masked).filter fun n => !(n.addr.is6 && n.addr.isLinkLocalUnicast)

def vetOwn (env : Env) (n : Prefix) : Option String :=
  (vetNetwork n env).map fun why =>
    if env.configured then
      "the configuration's Address " ++ n.addr.text ++ " " ++ why ++ "; refusing"
    else
      "the server gave the tunnel the network " ++ n.text ++ ", which " ++ why ++ "; refusing"

/-- A route into the tunnel that RiftRoute did not add. -/
def vetStray (env : Env) (dst : Prefix) : Option String :=
  if plumbing dst || insideAny dst (ownNets nets) then none
  else if insideAny dst env.ours then
    (holdsProtected dst env).map fun why =>
      "the server's settings put a route to " ++ dst.text ++ " into the tunnel, which " ++ why ++
        "; refusing"
  else if peer30 dst nets then
    ((vetNetwork dst env).or
        (if insideAny dst privateV4 then none else some "is a public address")).map fun why =>
      "the server made " ++ dst.addr.text ++ " the tunnel's point-to-point peer, which " ++ why ++
        "; refusing"
  else
    some ("the server's settings put a route to " ++ dst.text ++
      " into the tunnel, outside its own network; refusing")

/-- The destinations of the kernel's routes into the tunnel's interface that
RiftRoute did not add; one that does not parse is not addressable from here. -/
def strays (routes : List Route) (env : Env) : List Prefix :=
  (routes.filter fun r => r.iface = env.iface ∧ r.owner ≠ .riftRoute).filterMap fun r =>
    (parsePrefix r.dstCIDR).map Prefix.masked

/-- Why the addressing is refused. -/
def vetAddressing (routes : List Route) (env : Env) : Option String :=
  ((ownNets nets).findSome? (vetOwn { env with routes })).or
    ((strays routes env).findSome? (vetStray nets { env with routes }))

section Accepted

variable {nets : List Prefix} {routes : List Route} {env : Env} {n : Prefix}

theorem not_contains (free : holdsProtected n env = none) {x : Addr}
    (member : x ∈ env.guarded ++ env.servers) (unmapped : x.unmap = x) : ¬ n.contains x := by
  intro held
  simp only [holdsProtected, Option.or_eq_none_iff, List.findSome?_eq_none_iff] at free
  rcases List.mem_append.mp member with guarded | server
  · have missed := free.1 x guarded
    rw [unmapped, if_pos held] at missed
    cases missed
  · have missed := free.2 x server
    rw [unmapped, if_pos held] at missed
    cases missed

theorem free_of_vetNetwork (vetted : vetNetwork n env = none) : holdsProtected n env = none := by
  unfold vetNetwork at vetted
  split at vetted
  case isTrue => cases vetted
  split at vetted
  case isTrue => cases vetted
  exact (Option.or_eq_none_iff.mp vetted).1

/-- What lets a stray route pass. -/
theorem passed_of_vetStray {dst : Prefix} (vetted : vetStray nets env dst = none) :
    plumbing dst ∨ insideAny dst (ownNets nets) ∨ holdsProtected dst env = none ∧
      (insideAny dst env.ours ∨ dst.isSingleIP ∧ insideAny dst privateV4) := by
  unfold vetStray at vetted
  split at vetted
  case isTrue exempt =>
    rw [Bool.or_eq_true] at exempt
    exact exempt.imp_right .inl
  split at vetted
  case isTrue inside =>
    exact .inr (.inr ⟨Option.map_eq_none_iff.mp vetted, .inl inside⟩)
  split at vetted
  case isTrue peer =>
    obtain ⟨network, space⟩ := Option.or_eq_none_iff.mp (Option.map_eq_none_iff.mp vetted)
    simp only [peer30, Bool.and_eq_true, Bool.not_eq_true', decide_eq_true_eq] at peer
    obtain ⟨⟨four, host⟩, -⟩ := peer
    refine .inr (.inr ⟨free_of_vetNetwork network, .inr ⟨?_, ?_⟩⟩)
    · cases v4 : dst.addr with
      | v4 bits => simp [Prefix.isSingleIP, v4, host, Addr.bitLen]
      | v6 bits zone => simp [v4, Addr.is6] at four
    · by_contra outside
      rw [if_neg outside] at space
      cases space
  case isFalse => cases vetted

/-- The limited broadcast. -/
def broadcast : Addr := .v4 0xffffffff#32

/-- An address that is neither mapped, zoned, multicast, the limited broadcast
nor link-local. -/
def Plain (x : Addr) : Prop :=
  x.unmap = x ∧ x.zone = "" ∧ x.isMulticast = false ∧ x ≠ broadcast ∧ x.isLinkLocalUnicast = false

/-- Every address of a network is in the range. -/
def Within (range : Addr → Prop) (p : Prefix) : Prop := ∀ x, p.contains x → range x

/-- A network that starts at a multicast, limited broadcast or IPv6 link-local
address does not reach beyond that range. -/
structure Uniform (p : Prefix) : Prop where
  multicast : p.addr.isMulticast → Within (fun x => x.isMulticast) p
  limited : p.addr = broadcast → Within (· = broadcast) p
  linkLocal : p.addr.is6 && p.addr.isLinkLocalUnicast → Within (fun x => x.isLinkLocalUnicast) p

theorem Uniform.of_plumbing {p : Prefix} (uniform : Uniform p) (plumbed : plumbing p) :
    Within (fun x => x.isMulticast) p ∨ Within (· = broadcast) p ∨
      Within (fun x => x.isLinkLocalUnicast) p := by
  simp only [plumbing, Bool.or_eq_true, decide_eq_true_eq] at plumbed
  rcases plumbed with (multicast | limited) | linkLocal
  · exact .inl (uniform.multicast multicast)
  · exact .inr (.inl (uniform.limited limited))
  · exact .inr (.inr (uniform.linkLocal linkLocal))

/-- **Accepted addressing captures no guarded address or server**, where no
network and no route into the tunnel reaches beyond the special range it starts
in; and a route that is of no special range and outside the user's is within a
vetted network or one private host. -/
theorem accepted_captures_nothing (accepted : vetAddressing nets routes env = none)
    (uniform : ∀ p ∈ nets.map Prefix.masked ++ strays routes env, Uniform p) :
    (∀ x ∈ env.guarded ++ env.servers, Plain x →
      (∀ n ∈ nets, ¬ Within (fun x => x.isLinkLocalUnicast) n → ¬ n.contains x) ∧
        ∀ dst ∈ strays routes env, ¬ dst.contains x) ∧
    ∀ dst ∈ strays routes env, ¬ Within (fun x => x.isMulticast) dst →
      ¬ Within (· = broadcast) dst → ¬ Within (fun x => x.isLinkLocalUnicast) dst →
      ¬ insideAny dst env.ours →
        insideAny dst (ownNets nets) ∨ dst.isSingleIP ∧ insideAny dst privateV4 := by
  simp only [vetAddressing, Option.or_eq_none_iff, List.findSome?_eq_none_iff] at accepted
  obtain ⟨networks, stray⟩ := accepted
  have own : ∀ n ∈ ownNets nets, ∀ x ∈ env.guarded ++ env.servers, Plain x → ¬ n.contains x :=
    fun n listed x member plain => @not_contains { env with routes } n
      (free_of_vetNetwork (Option.map_eq_none_iff.mp (networks n listed))) x member plain.1
  refine ⟨fun x member plain => ⟨fun n listed unlinked held => ?_, fun dst listed held => ?_⟩,
    fun dst listed noMulticast noBroadcast noLink outside => ?_⟩
  · have inMasked : n.masked.contains x := by simpa using held
    cases linked : n.masked.addr.is6 && n.masked.addr.isLinkLocalUnicast with
    | true =>
      have all := (uniform n.masked (by simp [List.mem_map_of_mem listed])).linkLocal linked
      exact unlinked fun y inside => all y (by simpa using inside)
    | false =>
      refine own n.masked (List.mem_filter.mpr ⟨List.mem_map_of_mem listed, ?_⟩) x member plain
        inMasked
      rw [linked]
      rfl
  · rcases passed_of_vetStray (stray dst listed) with plumbed | inside | ⟨free, -⟩
    · obtain ⟨-, -, unicast, unlimited, routed⟩ := plain
      rcases (uniform dst (by simp [listed])).of_plumbing plumbed with all | all | all
      · exact absurd (all x held) (by simp [unicast])
      · exact unlimited (all x held)
      · exact absurd (all x held) (by simp [routed])
    · obtain ⟨n, vetted, covers⟩ := List.any_eq_true.mp inside
      exact own n vetted x member plain (Prefix.contains_of_covers covers held)
    · exact @not_contains { env with routes } dst free x member plain.1 held
  · rcases passed_of_vetStray (stray dst listed) with plumbed | inside | ⟨-, ours | host⟩
    · rcases (uniform dst (by simp [listed])).of_plumbing plumbed with all | all | all
      · exact absurd all noMulticast
      · exact absurd all noBroadcast
      · exact absurd all noLink
    · exact .inl inside
    · exact absurd ours outside
    · exact .inr host

end Accepted

def router : Env := { iface := "tun0", guarded := [.v4 0xf0000001#32] }

/-- 224.0.0.0/3 starts at a multicast address and holds 240.0.0.1. -/
theorem wide_multicast_accepted :
    vetAddressing [] [{ dstCIDR := "224.0.0.0/3", iface := "tun0" }] router = none ∧
    (.v4 0xf0000001#32 : Addr).isMulticast = false ∧
    (strays [{ dstCIDR := "224.0.0.0/3", iface := "tun0" }] router).any
      (·.contains (.v4 0xf0000001#32)) := by
  decide +kernel

def home : Prefix := ⟨.v4 0x0a080006#32, 24, rfl, by decide⟩

theorem private_network_captures_nothing :
    let routes : List Route := [{ dstCIDR := "224.0.0.0/4", iface := "tun0" }]
    vetAddressing [home] routes router = none ∧
    ∀ x ∈ router.guarded ++ router.servers, Plain x →
      (∀ n ∈ [home], ¬ Within (fun x => x.isLinkLocalUnicast) n → ¬ n.contains x) ∧
      ∀ dst ∈ strays routes router, ¬ dst.contains x := by
  intro routes
  refine ⟨by decide +kernel, (accepted_captures_nothing (by decide +kernel) ?_).1⟩
  have shapes : ∀ p ∈ [home].map Prefix.masked ++ strays routes router,
      p.addr.is6 = false ∧ p.addr ≠ broadcast ∧
        (p.addr.isMulticast → p.bits = 4 ∧ p.addr.lead 4 = 0xe) := by
    decide +kernel
  intro p member
  obtain ⟨four, unlimited, wide⟩ := shapes p member
  refine ⟨fun multicast x held => ?_, fun same => absurd same unlimited, by simp [four]⟩
  obtain ⟨bits, lead⟩ := wide multicast
  obtain ⟨-, family, same⟩ := Prefix.contains_iff.mp held
  rw [bits, lead] at same
  cases x with
  | v6 =>
    rw [four] at family
    cases family
  | v4 x =>
    have top : x >>> 28 = 0xe#32 := by
      apply BitVec.eq_of_toNat_eq
      simpa [Addr.lead, Addr.toNat, Addr.bitLen, Nat.shiftRight_eq_div_pow] using same
    simp [Addr.isMulticast, Addr.unmap, top]

end RiftRoute.Addressing
