/-
Module: RiftRoute.Tunnel.Ovpn
Purpose: OpenVPN profiles: an imported text is parsed against an allow-list of
  client directives, and the configuration handed to openvpn is written from
  what was kept, followed by RiftRoute's own directives.  What the profile of
  an accepted text holds.
Trusted boundary: human-reviewed spec
-/
import RiftRoute.Library.Bytes
import RiftRoute.Tunnel.Definitions

namespace RiftRoute.Ovpn

open Bytes (utf8 newline trimSpace)

/-! ### The allow-list -/

/-- How the sanitizer treats a directive. -/
inductive Policy where
  /-- Render as parsed. -/
  | keep
  /-- Drop, and report. -/
  | ignore
  /-- Key and certificate material: inline form only. -/
  | inline
deriving DecidableEq, Repr

def keptDirectives : List String :=
  ["client", "tls-client", "pull", "nobind", "float", "resolv-retry",
    "connect-retry", "connect-retry-max", "connect-timeout",
    "server-poll-timeout", "remote-random", "remote-random-hostname",
    "explicit-exit-notify", "persist-key", "persist-tun", "persist-remote-ip",
    "persist-local-ip", "topology", "tun-ipv6", "fast-io",
    "remote-cert-tls", "ns-cert-type", "remote-cert-eku", "remote-cert-ku",
    "verify-x509-name", "tls-version-min", "tls-version-max", "tls-cipher",
    "tls-ciphersuites", "tls-groups", "tls-cert-profile", "key-direction",
    "cipher", "data-ciphers", "data-ciphers-fallback", "ncp-ciphers", "auth",
    "tls-timeout", "hand-window", "tran-window", "tls-exit", "reneg-sec",
    "reneg-bytes", "reneg-pkts", "replay-window", "mute-replay-warnings",
    "auth-nocache", "comp-lzo", "compress", "allow-compression", "tun-mtu",
    "link-mtu", "mssfix", "fragment", "tun-mtu-extra", "mtu-disc", "sndbuf",
    "rcvbuf", "txqueuelen", "ping", "ping-restart", "ping-exit",
    "ping-timer-rem", "keepalive", "inactive", "verb", "mute"]

def ignoredDirectives : List String :=
  ["keysize", "ncp-disable", "key-method", "redirect-gateway",
    "redirect-private", "route", "route-ipv6", "route-gateway",
    "route-metric", "route-delay", "route-method", "route-nopull",
    "route-noexec", "pull-filter", "dhcp-option", "dns", "block-outside-dns",
    "register-dns", "block-ipv6", "ip-win32", "dhcp-renew", "dhcp-release",
    "user", "group", "auth-retry", "setenv", "setenv-safe",
    "ignore-unknown-option", "echo", "push-peer-info"]

def inlineDirectives : List String :=
  ["ca", "cert", "key", "tls-auth", "tls-crypt", "tls-crypt-v2", "pkcs12",
    "extra-certs", "crl-verify", "peer-fingerprint"]

/-- The allow-list; anything absent is refused. -/
def policyOf (name : Bytes) : Option Policy :=
  if name ∈ keptDirectives.map utf8 then some .keep
  else if name ∈ ignoredDirectives.map utf8 then some .ignore
  else if name ∈ inlineDirectives.map utf8 then some .inline
  else none

/-- The directives that are deliberately not allowed, and why. -/
def refusedDirectives : List (String × String) :=
  [("up", "runs a script"), ("down", "runs a script"),
    ("up-restart", "runs a script"), ("down-pre", "runs a script"),
    ("route-up", "runs a script"), ("route-pre-down", "runs a script"),
    ("ipchange", "runs a script"), ("tls-verify", "runs a script"),
    ("auth-user-pass-verify", "runs a script"),
    ("client-connect", "runs a script"),
    ("client-disconnect", "runs a script"),
    ("learn-address", "runs a script"),
    ("script-security", "enables scripts"), ("plugin", "loads a library"),
    ("engine", "loads a library"), ("providers", "loads a library"),
    ("pkcs11-providers", "loads a library"), ("iproute", "runs a program"),
    ("config", "reads another file"), ("cd", "changes directory"),
    ("chroot", "changes root"), ("daemon", "detaches the process"),
    ("log", "writes a file"), ("log-append", "writes a file"),
    ("status", "writes a file"), ("writepid", "writes a file"),
    ("tmp-dir", "writes files"), ("askpass", "reads a file"),
    ("dev-node", "opens a device path"),
    ("secret", "static-key tunnels aren't supported"),
    ("static-challenge", "challenge/response logins aren't supported yet"),
    ("http-proxy", "proxies aren't supported yet"),
    ("socks-proxy", "proxies aren't supported yet"),
    ("ifconfig", "static tunnel addressing isn't supported"),
    ("ifconfig-ipv6", "static tunnel addressing isn't supported"),
    ("connection", "<connection> blocks aren't supported yet")]

def refusedWhy (name : Bytes) : Option Bytes :=
  (refusedDirectives.find? fun entry => utf8 entry.1 = name).map (utf8 ·.2)

/-! ### Profiles -/

/-- What a profile holds, in file order. -/
structure Line where
  name : Bytes
  args : List Bytes := []
  /-- An inline block, with its content. -/
  block : Bool := false
  body : Bytes := []
  /-- A `remote` line, written anew from the resolved servers. -/
  remote : Bool := false
deriving DecidableEq

structure Profile where
  lines : List Line := []
  remotes : List Remote := []
  needsAuth : Bool := false
  inlineUser : Bytes := []
  inlinePass : Bytes := []
  /-- The directives left out because RiftRoute owns their job. -/
  ignored : List Bytes := []
  verb : Int := 0
deriving DecidableEq

structure ProfileError where
  line : Nat := 0
  msg : Bytes
deriving DecidableEq

/-! ### Words and arguments -/

/-- The words of a line, as openvpn splits it; control characters are
refused. -/
def tokenize (line : Bytes) : Except String (List Bytes) :=
  Bytes.splitWords (fun c => c = 32 || c = 9) (fun c => c < 32 && c ≠ 9 || c = 127) .plain none line

/-- A byte that needs quoting. -/
def isSpecial (c : UInt8) : Bool := [32, 9, 34, 39, 92, 35, 59].contains c

/-- A word as `tokenize` and openvpn read it back. -/
def quote (word : Bytes) : Bytes :=
  if word ≠ [] && !word.any isSpecial then word else Bytes.inQuotes word

/-- A value in an error text. -/
def quoted (value : Bytes) : Bytes := Bytes.inQuotes value

def isDigit (c : UInt8) : Bool := 48 ≤ c && c ≤ 57

def isAlnum (c : UInt8) : Bool := isDigit c || 65 ≤ c && c ≤ 90 || 97 ≤ c && c ≤ 122

def isHex (c : UInt8) : Bool := isDigit c || 65 ≤ c && c ≤ 70 || 97 ≤ c && c ≤ 102

/-- `strconv.Atoi`. -/
def atoi (text : Bytes) : Option Int :=
  let (negative, digits) : Bool × Bytes :=
    match text with
    | 45 :: rest => (true, rest)
    | 43 :: rest => (false, rest)
    | _ => (false, text)
  if digits = [] ∨ ¬ digits.all isDigit then none
  else
    let n : Nat := digits.foldl (fun n c => n * 10 + (c.toNat - 48)) 0
    let value : Int := if negative then -n else n
    if -2 ^ 63 ≤ value ∧ value < 2 ^ 63 then some value else none

def parsePort (args : List Bytes) : Option Nat :=
  match args with
  | [arg] =>
    (atoi arg).bind fun n =>
      if 0 < n ∧ n < 65536 then some n.toNat else none
  | _ => none

/-- The client's spellings of a protocol. -/
def normProto (args : List Bytes) : Option Proto :=
  match args with
  | [arg] =>
    if arg ∈ ["udp", "udp4", "udp6"].map utf8 then some .udp
    else if arg ∈ ["tcp", "tcp4", "tcp6", "tcp-client", "tcp4-client",
        "tcp6-client"].map utf8 then some .tcp
    else none
  | _ => none

/-- Bytes as the characters of their values, which is how ASCII texts
read. -/
def latin (text : Bytes) : String := String.ofList (text.map fun c => Char.ofNat c.toNat)

def isHost (host : Bytes) : Bool :=
  host.length ≤ 253 && host.head?.any isAlnum && host.getLast?.any isAlnum &&
    host.all fun c => isAlnum c || c = 46 || c = 45

def isDevTun (arg : Bytes) : Bool :=
  let tun : Bytes → Bool := fun arg =>
    (utf8 "tun").isPrefixOf arg && (arg.drop 3).all isDigit
  tun arg || arg.head? = some 117 && tun arg.tail

/-- Twenty to sixty-four pairs of hex digits, with colons between them. -/
def isFingerprint (text : Bytes) : Bool :=
  let pairs := text.splitOn 58
  20 ≤ pairs.length && pairs.length ≤ 64 && pairs.all fun pair => pair.length = 2 && pair.all isHex

def allFingerprints (args : List Bytes) : Bool :=
  args.all fun arg => (arg.splitOn 59).all fun f => f = [] || isFingerprint f

/-- Why an address cannot be a server's. -/
def checkRemoteAddr (host : Bytes) : Option Bytes :=
  match Netip.parseAddr (latin host) with
  | none => none
  | some addr =>
    if addr.zone ≠ "" then
      some (utf8 "remote " ++ quoted host ++ utf8 " has an IPv6 zone (%…); use the plain address")
    else
      let addr := addr.unmap
      if addr.isLoopback || addr.isLinkLocalUnicast || addr.isMulticast ||
          addr.isUnspecified || addr = .v4 0xffffffff#32 then
        some (utf8 "remote " ++ host ++
          utf8 (" is a loopback, link-local, multicast or unspecified " ++
            "address; it can't be a VPN server"))
      else none

/-! ### Reading a profile -/

/-- The tag of a line that opens an inline block. -/
def blockTag (raw : Bytes) : Option Bytes :=
  match raw with
  | 60 :: rest =>
    if rest.getLast? = some 62 ∧ rest.head? ≠ some 47 then
      some rest.dropLast
    else none
  | _ => none

def closingTag (tag : Bytes) : Bytes := utf8 "</" ++ tag ++ utf8 ">"

/-- The pieces of a text: single lines, trimmed, and inline blocks with their
lines as they are, each with the number of its first line. -/
inductive Segment where
  | row (ln : Nat) (raw : Bytes)
  | block (ln : Nat) (tag : Bytes) (body : List Bytes)
  | unclosed (ln : Nat) (tag : Bytes)
deriving DecidableEq

/-- The pieces of lines, from a line number on and within a block if one is
open. -/
def segmentsFrom (ln : Nat) : Option (Nat × Bytes × List Bytes) → List Bytes → List Segment
  | none, [] => []
  | some (start, tag, _), [] => [.unclosed start tag]
  | none, row :: rows =>
    match blockTag (trimSpace row) with
    | some tag => segmentsFrom (ln + 1) (some (ln, tag, [])) rows
    | none => .row ln (trimSpace row) :: segmentsFrom (ln + 1) none rows
  | some (start, tag, body), row :: rows =>
    if trimSpace row = closingTag tag then
      .block start tag body :: segmentsFrom (ln + 1) none rows
    else segmentsFrom (ln + 1) (some (start, tag, body ++ [row])) rows

/-- `strings.ReplaceAll(text, "\r\n", "\n")`. -/
def replaceCRLF : Bytes → Bytes
  | [] => []
  | [b] => [b]
  | b :: c :: rest =>
    if b = 13 ∧ c = newline then newline :: replaceCRLF rest
    else b :: replaceCRLF (c :: rest)

def segments (text : Bytes) : List Segment :=
  segmentsFrom 1 none ((replaceCRLF text).splitOn newline)

structure ParseState extends Profile where
  defPort : Nat := 1194
  defProto : Proto := .udp
  /-- The `remote` lines' numbers and arguments. -/
  asked : List (Nat × List Bytes) := []
  sawDev : Bool := false

def maxProfileBytes : Nat := 512 * 1024

def maxRemotes : Nat := 32

def refuse {α : Type} (ln : Nat) (msg : Bytes) : Except ProfileError α :=
  .error { line := ln, msg := msg }

def ParseState.add (st : ParseState) (l : Line) : ParseState := { st with lines := st.lines ++ [l] }

def angled (tag : Bytes) : Bytes := utf8 "<" ++ tag ++ utf8 ">"

def parseBlock (st : ParseState) (ln : Nat) (tag : Bytes) (body : List Bytes) :
    Except ProfileError ParseState :=
  if body.any fun row => (utf8 "</").isPrefixOf (trimSpace row) then
    refuse ln (angled tag ++ utf8 " block looks malformed")
  else
    let content := [newline].intercalate body
    if tag = utf8 "auth-user-pass" then
      match (trimSpace content).splitOn newline with
      | [] => .ok { st with needsAuth := true }
      | [user] =>
        .ok { st with inlineUser := trimSpace user, needsAuth := true }
      | user :: pass :: _ =>
        .ok { st with
          inlineUser := trimSpace user
          inlinePass := trimSpace pass
          needsAuth := true }
    else if policyOf tag = some .inline then
      if trimSpace content = [] then
        refuse ln (angled tag ++ utf8 " block is empty")
      else .ok (st.add { name := tag, block := true, body := content })
    else
      match refusedWhy tag with
      | some why => refuse ln (angled tag ++ utf8 ": " ++ why)
      | none => refuse ln (utf8 "unsupported inline block " ++ angled tag)

/-- The directives with rules of their own. -/
inductive Special where
  | verb
  | dev
  | devType
  | proto
  | port
  | localPort
  | remote
  | authUserPass
deriving DecidableEq

def specials : List (String × Special) :=
  [("verb", .verb), ("dev", .dev), ("dev-type", .devType), ("proto", .proto),
    ("port", .port), ("rport", .port), ("lport", .localPort),
    ("bind", .localPort), ("remote", .remote),
    ("auth-user-pass", .authUserPass)]

def specialOf (name : Bytes) : Option Special :=
  (specials.find? fun entry => utf8 entry.1 = name).map (·.2)

def onlyTun : Bytes := utf8 "only `dev tun` is supported (TAP/layer-2 tunnels are not)"

def parseSpecial (st : ParseState) (ln : Nat) (name : Bytes)
    (args : List Bytes) : Special → Except ProfileError ParseState
  -- Written with RiftRoute's own directives.
  | .verb => .ok { st with verb := (atoi args.flatten).getD st.verb }
  | .dev =>
    match args with
    | [arg] =>
      if isDevTun arg then
        .ok { st.add { name := utf8 "dev", args := [utf8 "tun"] } with
          sawDev := true }
      else refuse ln onlyTun
    | _ => refuse ln onlyTun
  | .devType =>
    if args = [utf8 "tun"] then .ok st
    else refuse ln (utf8 "only `dev-type tun` is supported")
  -- Folded into each server that is written.
  | .proto =>
    match normProto args with
    | some proto => .ok { st with defProto := proto }
    | none => refuse ln (utf8 "unsupported proto " ++
        quoted ([32].intercalate args))
  | .port =>
    match parsePort args with
    | some port => .ok { st with defPort := port }
    | none => refuse ln (utf8 "invalid " ++ name)
  -- The client never needs a fixed local port.
  | .localPort => .ok st
  | .remote =>
    if st.asked.length = maxRemotes then
      refuse ln (utf8 "more than 32 remote lines")
    else
      .ok { st.add { name := utf8 "remote", remote := true } with
        asked := st.asked ++ [(ln, args)] }
  | .authUserPass =>
    .ok { st.add { name := utf8 "auth-user-pass" } with needsAuth := true }

/-- The direction in `tls-auth [inline] 1`. -/
def keyDirection (name : Bytes) (args : List Bytes) : Option Bytes :=
  match args with
  | [_, direction] =>
    if name = utf8 "tls-auth" then some direction else none
  | _ => none

/-- The directives of the allow-list. -/
def parseListed (st : ParseState) (ln : Nat) (name : Bytes)
    (args : List Bytes) : Except ProfileError ParseState :=
  match policyOf name with
  | none => refuse ln (utf8 "unsupported directive " ++ quoted name)
  | some .ignore => .ok { st with ignored := addNew id st.ignored name }
  | some .inline =>
    if name = utf8 "peer-fingerprint" ∧ args ≠ [] ∧ allFingerprints args then
      .ok (st.add { name := name, args := args })
    else if args.head?.any (· ≠ utf8 "[inline]") then
      refuse ln (name ++ utf8 (" refers to a file; inline it " ++
        "(riftroute tunnel add does this for you)"))
    else
      match keyDirection name args with
      | some direction =>
        if direction = utf8 "0" ∨ direction = utf8 "1" then
          .ok (st.add { name := utf8 "key-direction", args := [direction] })
        else refuse ln (utf8 "tls-auth key direction must be 0 or 1")
      | none => .ok st
  | some .keep =>
    if args.any fun arg => 512 < arg.length then
      refuse ln (name ++ utf8 ": argument too long")
    else .ok (st.add { name := name, args := args })

def parseDirective (st : ParseState) (ln : Nat) (name : Bytes)
    (args : List Bytes) : Except ProfileError ParseState :=
  if (utf8 "management").isPrefixOf name then
    refuse ln (name ++ utf8 ": RiftRoute manages the openvpn process itself")
  else
    match refusedWhy name with
    | some why => refuse ln (name ++ utf8 " is not allowed: " ++ why)
    | none =>
      match specialOf name with
      | some special => parseSpecial st ln name args special
      | none => parseListed st ln name args

def withoutDashes (word : Bytes) : Bytes :=
  match word with
  | 45 :: 45 :: rest => rest
  | _ => word

def parseSegment (st : ParseState) : Segment → Except ProfileError ParseState
  | .row ln raw =>
    if raw.head?.all fun c => c = 35 || c = 59 then .ok st
    else
      match tokenize raw with
      | .error e => refuse ln (utf8 e)
      | .ok [] => .ok st
      | .ok (word :: args) => parseDirective st ln (withoutDashes word) args
  | .block ln tag body => parseBlock st ln tag body
  | .unclosed ln tag => refuse ln (angled tag ++ utf8 " is never closed")

def remotePort (st : ParseState) (ln : Nat) (more : List Bytes) : Except ProfileError Nat :=
  match more with
  | [] => .ok st.defPort
  | port :: _ =>
    match parsePort [port] with
    | some n => .ok n
    | none => refuse ln (utf8 "invalid remote port " ++ quoted port)

def remoteProto (st : ParseState) (ln : Nat) (more : List Bytes) : Except ProfileError Proto :=
  match more with
  | [_, proto] =>
    match normProto [proto] with
    | some p => .ok p
    | none => refuse ln (utf8 "unsupported remote proto " ++ quoted proto)
  | _ => .ok st.defProto

/-- One `remote` line, once the defaults are known. -/
def parseRemote (st : ParseState) (asked : Nat × List Bytes) : Except ProfileError Remote :=
  match asked.2 with
  | [] => refuse asked.1 (utf8 "remote needs a host name or IP")
  | host :: more =>
    if 2 < more.length ∨ ¬ ((Netip.parseAddr (latin host)).isSome || isHost host) then
      refuse asked.1 (utf8 "remote needs a host name or IP")
    else
      match checkRemoteAddr host with
      | some why => refuse asked.1 why
      | none => do
          let port ← remotePort st asked.1 more
          let proto ← remoteProto st asked.1 more
          .ok { host := latin host, port := port, proto := proto }

def parse (text : Bytes) : Except ProfileError Profile := do
  if maxProfileBytes < text.length then
    .error { msg := utf8 "profile is larger than 512 KiB" }
  else if 0 ∈ text then .error { msg := utf8 "profile contains a NUL byte" }
  else
    let st ← (segments text).foldlM parseSegment {}
    let remotes ← st.asked.mapM (parseRemote st)
    if remotes = [] then
      .error { msg := utf8 "profile has no `remote` server" }
    else
      .ok { st.toProfile with
        remotes := remotes
        lines :=
          if st.sawDev then st.lines
          else { name := utf8 "dev", args := [utf8 "tun"] } :: st.lines
        ignored := st.ignored.insertionSort (· ≤ ·) }

/-! ### Writing the configuration -/

structure RenderOptions where
  /-- In place of the profile's own servers; empty keeps them. -/
  remotes : List Remote := []
  /-- The socket openvpn listens on. -/
  management : Bytes
  /-- The server may give the tunnel an IPv6 address. -/
  ipv6 : Bool := false

/-- `strings.EqualFold`'s folding, of ASCII letters and of the two characters
that fold to them. -/
def foldCase : Bytes → Bytes
  | [] => []
  | 0xc5 :: 0xbf :: rest => 115 :: foldCase rest
  | 0xe2 :: 0x84 :: 0xaa :: rest => 107 :: foldCase rest
  | c :: rest => (if 65 ≤ c && c ≤ 90 then c + 32 else c) :: foldCase rest

def equalFold (a b : Bytes) : Bool := foldCase a = foldCase b

def defaultDataCiphers : Bytes := utf8 "AES-256-GCM:AES-128-GCM:CHACHA20-POLY1305"

def Profile.cipher (p : Profile) : Bytes :=
  p.lines.foldl (fun cipher l =>
      match decide (l.name = utf8 "cipher"), l.args with
      | true, [arg] => arg
      | _, _ => cipher)
    []

def Profile.names (p : Profile) (name : String) : Bool := p.lines.any fun l => l.name = utf8 name

/-- The lines that keep a profile's cipher usable. -/
def Profile.cipherCompat (p : Profile) : List Line :=
  let cipher := p.cipher
  if cipher = [] ∨ equalFold cipher (utf8 "none") ∨ equalFold cipher (utf8 "BF-CBC") then []
  else
    let list :=
      if (defaultDataCiphers.splitOn 58).any (equalFold · cipher) then
        defaultDataCiphers
      else defaultDataCiphers ++ utf8 ":" ++ cipher
    (if p.names "data-ciphers" || p.names "ncp-ciphers" then []
      else [{ name := utf8 "data-ciphers", args := [list] }]) ++
    (if p.names "data-ciphers-fallback" then []
      else [{ name := utf8 "data-ciphers-fallback", args := [cipher] }])

/-- A directive's line. -/
def directiveRow (name : Bytes) (args : List Bytes) : Bytes :=
  name ++ args.flatMap fun arg => 32 :: quote arg

def remoteRow (r : Remote) : Bytes :=
  directiveRow (utf8 "remote") [utf8 r.host, utf8 (toString r.port), utf8 r.proto.text]

/-- What a kept line is written as. -/
def Line.render (l : Line) : Bytes :=
  if l.block then
    angled l.name ++ [newline] ++ Bytes.trim newline l.body ++ [newline] ++
      closingTag l.name ++ [newline]
  else directiveRow l.name l.args ++ [newline]

/-- The kept lines; the servers are written where the first `remote` was. -/
def renderLines (remotes : List Remote) : Bool → List Line → Bytes
  | _, [] => []
  | wrote, l :: lines =>
    if l.remote then
      (if wrote then [] else Bytes.unlines (remotes.map remoteRow)) ++
        renderLines remotes true lines
    else l.render ++ renderLines remotes wrote lines

/-- RiftRoute's own directives. -/
def fixedRows (p : Profile) (o : RenderOptions) : List Bytes :=
  [utf8 "# --- RiftRoute ---", utf8 "route-nopull", utf8 "route-noexec",
    utf8 "pull-filter ignore \"redirect-gateway\"",
    utf8 "pull-filter ignore \"redirect-private\"",
    utf8 "pull-filter ignore \"dhcp-option\"",
    utf8 "pull-filter ignore \"dns\"",
    utf8 "pull-filter ignore \"block-outside-dns\"",
    utf8 "pull-filter ignore \"register-dns\""] ++
  (if o.ipv6 then []
    else
      [utf8 "pull-filter ignore \"ifconfig-ipv6\"", utf8 "pull-filter ignore \"route-ipv6\""]) ++
  [utf8 "script-security 1", utf8 "persist-tun", utf8 "auth-nocache", utf8 "auth-retry none",
    utf8 "verb " ++ utf8 (toString (min (max p.verb 3) 5)),
    utf8 "management " ++ quote o.management ++ utf8 " unix",
    utf8 "management-hold", utf8 "management-query-passwords",
    utf8 "management-signal"]

/-- The configuration handed to openvpn. -/
def Profile.render (p : Profile) (o : RenderOptions) : Bytes :=
  utf8 "# Generated by riftrouted. Routes and DNS are managed by RiftRoute." ++ [newline] ++
    renderLines (if o.remotes = [] then p.remotes else o.remotes) false p.lines ++
    p.cipherCompat.flatMap Line.render ++ Bytes.unlines (fixedRows p o)

open List

/-! ### The lines of a segment -/

/-- The lines a directive of the allow-list adds. -/
def listedLines (name : Bytes) (args : List Bytes) : List Line :=
  match policyOf name with
  | some .keep => [{ name := name, args := args }]
  | some .inline =>
    if name = utf8 "peer-fingerprint" ∧ args ≠ [] ∧ allFingerprints args then
      [{ name := name, args := args }]
    else
      match keyDirection name args with
      | some direction =>
        [{ name := utf8 "key-direction", args := [direction] }]
      | none => []
  | _ => []

def directiveLines (name : Bytes) (args : List Bytes) : List Line :=
  match specialOf name with
  | some .dev => [{ name := utf8 "dev", args := [utf8 "tun"] }]
  | some .remote => [{ name := utf8 "remote", remote := true }]
  | some .authUserPass => [{ name := utf8 "auth-user-pass" }]
  | some _ => []
  | none => listedLines name args

def directiveAsked (ln : Nat) (name : Bytes) (args : List Bytes) : List (Nat × List Bytes) :=
  match specialOf name with
  | some .remote => [(ln, args)]
  | _ => []

/-- The lines a segment of an accepted text adds. -/
def Segment.lines : Segment → List Line
  | .row _ raw =>
    if raw.head?.all fun c => c = 35 || c = 59 then []
    else
      match tokenize raw with
      | .ok (word :: args) => directiveLines (withoutDashes word) args
      | _ => []
  | .block _ tag body =>
    if tag = utf8 "auth-user-pass" then []
    else if policyOf tag = some .inline then
      [{ name := tag, block := true
         body := [newline].intercalate body }]
    else []
  | .unclosed _ _ => []

def Segment.asked : Segment → List (Nat × List Bytes)
  | .row ln raw =>
    if raw.head?.all fun c => c = 35 || c = 59 then []
    else
      match tokenize raw with
      | .ok (word :: args) => directiveAsked ln (withoutDashes word) args
      | _ => []
  | .block _ _ _ => []
  | .unclosed _ _ => []

/-- What a step of the parser adds. -/
def Adds (st after : ParseState) (lines : List Line) (asked : List (Nat × List Bytes)) : Prop :=
  after.lines = st.lines ++ lines ∧ after.asked = st.asked ++ asked

variable {st : ParseState}

theorem Adds.nothing {after : ParseState} (lines : after.lines = st.lines)
    (asked : after.asked = st.asked) : Adds st after [] [] :=
  ⟨lines.trans (append_nil _).symm, asked.trans (append_nil _).symm⟩

variable {l : Line}

theorem Adds.line {after : ParseState}
    (lines : after.lines = st.lines ++ [l]) (asked : after.asked = st.asked) :
    Adds st after [l] [] :=
  ⟨lines, asked.trans (append_nil _).symm⟩

section Parsed

variable {st after : ParseState} {ln : Nat} {name : Bytes} {args : List Bytes}

theorem adds_parseListed (parsed : parseListed st ln name args = .ok after) :
    Adds st after (listedLines name args) [] := by
  unfold listedLines
  revert parsed
  fun_cases parseListed with
  | case2 policy =>
    rintro ⟨⟩
    rw [policy]
    exact .nothing rfl rfl
  | case3 policy value =>
    rintro ⟨⟩
    simp only [policy, if_pos value]
    exact .line rfl rfl
  | case5 policy value _ tag direction =>
    rintro ⟨⟩
    simp only [policy, if_neg value, direction]
    exact .line rfl rfl
  | case7 policy value _ direction =>
    rintro ⟨⟩
    simp only [policy, if_neg value, direction]
    exact .nothing rfl rfl
  | case9 policy =>
    rintro ⟨⟩
    rw [policy]
    exact .line rfl rfl
  | _ => rintro ⟨⟩

theorem adds_parseSpecial {special : Special} (kind : specialOf name = special)
    (parsed : parseSpecial st ln name args special = .ok after) :
    Adds st after (directiveLines name args) (directiveAsked ln name args) := by
  rw [directiveLines, directiveAsked, kind]
  revert parsed
  fun_cases parseSpecial with
  | case1 | case5 | case7 | case9 | case11 =>
    rintro ⟨⟩
    exact .nothing rfl rfl
  | case2 | case14 =>
    rintro ⟨⟩
    exact .line rfl rfl
  | case13 =>
    rintro ⟨⟩
    exact ⟨rfl, rfl⟩
  | _ => rintro ⟨⟩

theorem adds_parseDirective (parsed : parseDirective st ln name args = .ok after) :
    Adds st after (directiveLines name args) (directiveAsked ln name args) := by
  revert parsed
  fun_cases parseDirective with
  | case1 | case2 => rintro ⟨⟩
  | case3 _ _ special kind => exact adds_parseSpecial kind
  | case4 _ _ plain =>
    rw [directiveLines, directiveAsked, plain]
    exact adds_parseListed

theorem adds_parseBlock {tag : Bytes} {body : List Bytes}
    (parsed : parseBlock st ln tag body = .ok after) :
    Adds st after (Segment.block ln tag body).lines [] := by
  revert parsed
  fun_cases parseBlock with
  | case2 _ _ login | case3 _ _ login | case4 _ _ login =>
    rintro ⟨⟩
    rw [Segment.lines, if_pos login]
    exact .nothing rfl rfl
  | case6 _ _ login inline =>
    rintro ⟨⟩
    rw [Segment.lines, if_neg login, if_pos inline]
    exact .line rfl rfl
  | _ => rintro ⟨⟩

theorem adds_parseSegment {segment : Segment} (parsed : parseSegment st segment = .ok after) :
    Adds st after segment.lines segment.asked := by
  revert parsed
  fun_cases parseSegment with
  | case1 ln raw comment =>
    rintro ⟨⟩
    rw [Segment.lines, Segment.asked, if_pos comment, if_pos comment]
    exact .nothing rfl rfl
  | case3 ln raw comment blank =>
    rintro ⟨⟩
    rw [Segment.lines, Segment.asked, if_neg comment, if_neg comment, blank]
    exact .nothing rfl rfl
  | case4 ln raw comment word args read =>
    rw [Segment.lines, Segment.asked, if_neg comment, if_neg comment, read]
    exact adds_parseDirective
  | case5 ln tag body => exact adds_parseBlock
  | case2 | case6 => rintro ⟨⟩

end Parsed

/-! ### The lines of a profile -/

/-- The line for a profile that names no device. -/
def devTun : Line := { name := utf8 "dev", args := [utf8 "tun"] }

variable {text : Bytes}

theorem parse_ok {p : Profile} (accepted : parse text = .ok p) :
    ∃ st, (segments text).foldlM parseSegment {} = .ok st ∧
      st.asked.mapM (parseRemote st) = .ok p.remotes ∧
      p.lines = if st.sawDev then st.lines else devTun :: st.lines := by
  unfold parse at accepted
  split at accepted
  case isTrue => cases accepted
  split at accepted
  case isTrue => cases accepted
  obtain ⟨st, read, accepted⟩ := exists_of_bind_ok accepted
  obtain ⟨remotes, servers, accepted⟩ := exists_of_bind_ok accepted
  split at accepted
  case isTrue => cases accepted
  cases accepted
  exact ⟨st, read, servers, rfl⟩

section Accepted

variable {p : Profile}

theorem segment_of_parse (accepted : parse text = .ok p) {segment : Segment}
    (member : segment ∈ segments text) :
    ∃ st after, parseSegment st segment = .ok after := by
  obtain ⟨st, read, _⟩ := parse_ok accepted
  exact foldlM_step read member

theorem lines_of_parse (accepted : parse text = .ok p) :
    p.lines = (segments text).flatMap Segment.lines ∨
      p.lines = devTun :: (segments text).flatMap Segment.lines := by
  obtain ⟨st, read, _, lines⟩ := parse_ok accepted
  have all : st.lines = (segments text).flatMap Segment.lines :=
    foldlM_append (fun st : ParseState => st.lines) Segment.lines
      (fun _ _ _ parsed => (adds_parseSegment parsed).1) read
  rw [lines, all]
  split
  · exact .inl rfl
  · exact .inr rfl

theorem mem_lines_of_parse (accepted : parse text = .ok p) {l : Line} (member : l ∈ p.lines) :
    l = devTun ∨ ∃ segment ∈ segments text, l ∈ segment.lines := by
  rcases lines_of_parse accepted with lines | lines
  · rw [lines] at member
    exact .inr (mem_flatMap.mp member)
  · rw [lines] at member
    rcases mem_cons.mp member with here | later
    · exact .inl here
    · exact .inr (mem_flatMap.mp later)

end Accepted

/-! ### What the lines are -/

/-- The line is on the allow-list: an inline block of key material, a server,
the device, the login, or a directive that is kept. -/
def Line.allowed (l : Line) : Bool :=
  if l.block then policyOf l.name = some .inline
  else if l.remote then l.name = utf8 "remote"
  else
    l.name = utf8 "dev" || l.name = utf8 "auth-user-pass" ||
      l.name = utf8 "peer-fingerprint" || policyOf l.name = some .keep

variable {args : List Bytes} {name : Bytes}

theorem mem_listedLines (member : l ∈ listedLines name args) :
    l.block = false ∧ l.allowed ∧ ∀ arg ∈ l.args, arg ∈ args := by
  unfold listedLines at member
  split at member
  case h_1 policy =>
    obtain rfl := mem_singleton.mp member
    exact ⟨rfl, by simp [Line.allowed, policy], fun _ here => here⟩
  case h_2 =>
    split at member
    case isTrue value =>
      obtain rfl := mem_singleton.mp member
      exact ⟨rfl, by simp [Line.allowed, value.1], fun _ here => here⟩
    case isFalse =>
      split at member
      case h_1 direction found =>
        obtain rfl := mem_singleton.mp member
        have kept : policyOf (utf8 "key-direction") = some .keep := by
          decide +kernel
        refine ⟨rfl, by simp [Line.allowed, kept], fun arg here => ?_⟩
        obtain rfl := mem_singleton.mp here
        unfold keyDirection at found
        split at found
        case h_1 =>
          split at found <;> cases found
          simp
        case h_2 => cases found
      case h_2 => cases member
  case h_3 => cases member

theorem mem_directiveLines (member : l ∈ directiveLines name args) :
    l.block = false ∧ l.allowed ∧ ∀ arg ∈ l.args, arg ∈ args ∨ arg = utf8 "tun" := by
  unfold directiveLines at member
  split at member
  case h_1 | h_2 | h_3 =>
    obtain rfl := mem_singleton.mp member
    exact ⟨rfl, by decide, by simp⟩
  case h_4 => cases member
  case h_5 =>
    obtain ⟨block, allowed, among⟩ := mem_listedLines member
    exact ⟨block, allowed, fun arg here => .inl (among arg here)⟩

theorem mem_rowLines {ln : Nat} {raw : Bytes} (member : l ∈ (Segment.row ln raw).lines) :
    ∃ word args, tokenize raw = .ok (word :: args) ∧
      l ∈ directiveLines (withoutDashes word) args := by
  rw [Segment.lines] at member
  split at member
  case isTrue => cases member
  split at member
  case h_1 word args read => exact ⟨word, args, read, member⟩
  case h_2 => cases member

theorem mem_blockLines {ln : Nat} {tag : Bytes} {body : List Bytes}
    (member : l ∈ (Segment.block ln tag body).lines) : policyOf tag = some .inline ∧
      l = { name := tag, block := true, body := [newline].intercalate body } := by
  rw [Segment.lines] at member
  split at member
  case isTrue => cases member
  split at member
  case isTrue inline => exact ⟨inline, mem_singleton.mp member⟩
  case isFalse => cases member

variable {segment : Segment}

theorem allowed_lines (member : l ∈ segment.lines) : l.allowed := by
  cases segment with
  | row ln raw =>
    obtain ⟨word, args, _, here⟩ := mem_rowLines member
    exact (mem_directiveLines here).2.1
  | block ln tag body =>
    obtain ⟨inline, rfl⟩ := mem_blockLines member
    exact decide_eq_true inline
  | unclosed ln tag => cases member

theorem allowed_of_parse {p : Profile}
    (accepted : parse text = .ok p) : ∀ l ∈ p.lines, l.allowed := by
  intro l member
  rcases mem_lines_of_parse accepted member with rfl | ⟨segment, _, here⟩
  · decide
  · exact allowed_lines here

/-! ### Line breaks -/

/-- The segment holds no line break. -/
def Segment.Free : Segment → Prop
  | .row _ raw => newline ∉ raw
  | .block _ _ body => ∀ row ∈ body, newline ∉ row
  | .unclosed _ _ => True

theorem free_segmentsFrom {rows : List Bytes} (free : ∀ row ∈ rows, newline ∉ row) (ln : Nat)
    (pending : Option (Nat × Bytes × List Bytes))
    (inside : ∀ block ∈ pending, ∀ row ∈ block.2.2, newline ∉ row) :
    ∀ segment ∈ segmentsFrom ln pending rows, segment.Free := by
  fun_induction segmentsFrom ln pending rows with
  | case1 => simp
  | case2 ln start tag body =>
    intro segment member
    obtain rfl := mem_singleton.mp member
    trivial
  | case3 ln row rows tag opens ih =>
    exact ih (fun other member => free other (mem_cons_of_mem _ member)) (by simp)
  | case4 ln row rows plain ih =>
    intro segment member
    rcases mem_cons.mp member with rfl | later
    · exact fun here => free row mem_cons_self (Bytes.mem_of_mem_trimSpace here)
    · exact ih (fun other member => free other (mem_cons_of_mem _ member))
        (by simp) segment later
  | case5 ln start tag body row rows closes ih =>
    intro segment member
    rcases mem_cons.mp member with rfl | later
    · exact inside (start, tag, body) rfl
    · exact ih (fun other member => free other (mem_cons_of_mem _ member))
        (by simp) segment later
  | case6 ln start tag body row rows more ih =>
    apply ih
    · exact fun other member => free other (mem_cons_of_mem _ member)
    · intro block here other member
      obtain rfl := Option.some.inj here
      rcases mem_append.mp member with old | last
      · exact inside (start, tag, body) rfl other old
      · obtain rfl := mem_singleton.mp last
        exact free other mem_cons_self

theorem free_segments (text : Bytes) : ∀ segment ∈ segments text, segment.Free :=
  free_segmentsFrom (fun _ member here => (Bytes.mem_of_mem_splitOn member here).2 rfl) 1 none
    (by simp)

theorem free_of_tokenize {raw : Bytes} (free : newline ∉ raw)
    {words : List Bytes} (read : tokenize raw = .ok words) :
    ∀ word ∈ words, newline ∉ word := by
  intro word member here
  rcases Bytes.mem_of_mem_splitWords read member here with none | inside
  · cases none
  · exact free inside

theorem free_args_lines (free : segment.Free)
    (member : l ∈ segment.lines) : ∀ arg ∈ l.args, newline ∉ arg := by
  cases segment with
  | row ln raw =>
    obtain ⟨word, args, read, here⟩ := mem_rowLines member
    intro arg inside
    rcases (mem_directiveLines here).2.2 arg inside with own | rfl
    · exact free_of_tokenize free read arg (mem_cons_of_mem _ own)
    · decide
  | block ln tag body =>
    obtain ⟨_, rfl⟩ := mem_blockLines member
    exact fun arg here => absurd here not_mem_nil
  | unclosed ln tag => cases member

section Accepted

variable {p : Profile}

theorem free_args_of_parse (accepted : parse text = .ok p) :
    ∀ l ∈ p.lines, ∀ arg ∈ l.args, newline ∉ arg := by
  intro l member
  rcases mem_lines_of_parse accepted member with rfl | ⟨segment, found, here⟩
  · intro arg only
    obtain rfl := mem_singleton.mp only
    decide
  · exact free_args_lines (free_segments text segment found) here

end Accepted

/-! ### Inline blocks -/

theorem mem_lines_of_block (member : l ∈ segment.lines) (block : l.block) :
    ∃ ln body, segment = .block ln l.name body ∧ l.body = [newline].intercalate body := by
  cases segment with
  | row ln raw =>
    obtain ⟨word, args, _, here⟩ := mem_rowLines member
    rw [(mem_directiveLines here).1] at block
    cases block
  | block ln tag body =>
    obtain ⟨_, rfl⟩ := mem_blockLines member
    exact ⟨ln, body, rfl, rfl⟩
  | unclosed ln tag => cases member

theorem rows_of_parseBlock {after : ParseState} {ln : Nat} {tag : Bytes}
    {body : List Bytes} (inline : policyOf tag = some .inline)
    (parsed : parseBlock st ln tag body = .ok after) :
    (∀ row ∈ body, ¬ utf8 "</" <+: trimSpace row) ∧ body ≠ [] := by
  unfold parseBlock at parsed
  split at parsed
  case isTrue => cases parsed
  rename_i calm
  refine ⟨?_, ?_⟩
  · intro row member looks
    apply calm
    exact any_eq_true.mpr ⟨row, member, List.isPrefixOf_iff_prefix.mpr looks⟩
  · rintro rfl
    have login : tag ≠ utf8 "auth-user-pass" := by
      rintro rfl
      cases inline
    have blank : trimSpace ([newline].intercalate ([] : List Bytes)) = [] := by
      decide
    simp only [if_neg login, if_pos blank] at parsed
    cases parsed

section Accepted

variable {p : Profile}

theorem block_of_parse (accepted : parse text = .ok p) {l : Line}
    (member : l ∈ p.lines) (block : l.block) :
    ∃ ln body, .block ln l.name body ∈ segments text ∧
      l.body = [newline].intercalate body ∧ body ≠ [] ∧
      ∀ row ∈ body, newline ∉ row ∧ ¬ utf8 "</" <+: trimSpace row := by
  have allowed := allowed_of_parse accepted l member
  rw [Line.allowed, if_pos block] at allowed
  rcases mem_lines_of_parse accepted member with rfl | ⟨segment, found, here⟩
  · cases block
  · obtain ⟨ln, body, rfl, content⟩ := mem_lines_of_block here block
    obtain ⟨st, after, parsed⟩ := segment_of_parse accepted found
    obtain ⟨calm, some⟩ := rows_of_parseBlock (of_decide_eq_true allowed) parsed
    have free := free_segments text _ found
    exact ⟨ln, body, found, content, some, fun row inside => ⟨free row inside, calm row inside⟩⟩

theorem line_of_block (accepted : parse text = .ok p) {ln : Nat} {tag : Bytes}
    {body : List Bytes} (found : .block ln tag body ∈ segments text)
    (inline : policyOf tag = some .inline) :
    { name := tag, block := true, body := [newline].intercalate body } ∈ p.lines := by
  have login : tag ≠ utf8 "auth-user-pass" := by
    rintro rfl
    cases inline
  have here : { name := tag, block := true
                body := [newline].intercalate body } ∈
      (segments text).flatMap Segment.lines := by
    refine mem_flatMap.mpr ⟨_, found, ?_⟩
    rw [Segment.lines, if_neg login, if_pos inline]
    exact mem_singleton_self _
  rcases lines_of_parse accepted with lines | lines
  · rw [lines]
    exact here
  · rw [lines]
    exact mem_cons_of_mem _ here

end Accepted

/-! ### Servers -/

theorem free_asked (free : segment.Free)
    {request : Nat × List Bytes} (member : request ∈ segment.asked) :
    ∀ arg ∈ request.2, newline ∉ arg := by
  cases segment with
  | row ln raw =>
    rw [Segment.asked] at member
    split at member
    case isTrue => cases member
    split at member
    case h_1 word args read =>
      unfold directiveAsked at member
      split at member
      case h_1 =>
        obtain rfl := mem_singleton.mp member
        intro arg here
        exact free_of_tokenize free read arg (mem_cons_of_mem _ here)
      case h_2 => cases member
    case h_2 => cases member
  | block | unclosed => cases member

theorem host_of_parseRemote {request : Nat × List Bytes}
    {r : Remote} (parsed : parseRemote st request = .ok r) :
    ∃ host ∈ request.2, r.host = latin host := by
  unfold parseRemote at parsed
  split at parsed
  case h_1 => cases parsed
  rename_i host more args
  rw [args]
  refine ⟨host, mem_cons_self, ?_⟩
  split at parsed
  case isTrue => cases parsed
  split at parsed
  case h_1 => cases parsed
  obtain ⟨port, _, parsed⟩ := exists_of_bind_ok parsed
  obtain ⟨proto, _, parsed⟩ := exists_of_bind_ok parsed
  cases parsed
  rfl

theorem newline_mem_of_latin (member : '\n' ∈ (latin text).toList) : newline ∈ text := by
  rw [latin, String.toList_ofList] at member
  obtain ⟨b, inside, same⟩ := mem_map.mp member
  have only : ∀ n < 256, Char.ofNat n = '\n' → n = 10 := by
    decide +kernel
  have value : b.toNat = newline.toNat := only b.toNat b.toNat_lt same
  rw [← UInt8.toNat_inj.mp value]
  exact inside

theorem free_hosts_of_parse {p : Profile}
    (accepted : parse text = .ok p) : ∀ r ∈ p.remotes, '\n' ∉ r.host.toList := by
  obtain ⟨st, read, servers, _⟩ := parse_ok accepted
  have asked : st.asked = (segments text).flatMap Segment.asked :=
    foldlM_append (fun st : ParseState => st.asked) Segment.asked
      (fun _ _ _ parsed => (adds_parseSegment parsed).2) read
  intro r member inside
  obtain ⟨request, wanted, parsed⟩ := exists_of_mem_mapM servers member
  rw [asked] at wanted
  obtain ⟨segment, found, here⟩ := mem_flatMap.mp wanted
  obtain ⟨host, inArgs, named⟩ := host_of_parseRemote parsed
  rw [named] at inside
  exact free_asked (free_segments text segment found) here host inArgs (newline_mem_of_latin inside)

end RiftRoute.Ovpn
