/-
Module: RiftRoute.Tunnel.Manager
Purpose: The tunnel manager: operations as sequences of sections under the
  lock, which interleave freely, and when a tunnel set to block stays reported
  as blocking.
Trusted boundary: human-reviewed spec
Main exports: Manager, TunnelTask
-/
import RiftRoute.Library.KeyedTable
import RiftRoute.Library.Machine
import RiftRoute.Routing.DesiredInput
import RiftRoute.Tunnel.Definitions

namespace RiftRoute

open Netip (Addr)
open Texts (trimSpace)

/-! ### The state -/

inductive TunnelState where
  | disconnected
  | connecting
  | connected
  | reconnecting
  | failed
deriving DecidableEq, Repr

/-- What the manager keeps of a tunnel beside its definition. -/
structure Live where
  state : TunnelState := .disconnected
  iface : String := ""
  v6 : Bool := false
  bypass : List Addr := []
  /-- The addresses the tunnel may connect to. -/
  servers : List Addr := []
  /-- The session has been connected. -/
  since : Bool := false
  /-- Attempts that ended before connecting, since the last connection. -/
  failures : Nat := 0
  sess : Option Nat := none
  /-- A delete is tearing the tunnel down. -/
  deleting : Bool := false
  /-- Someone asked for the tunnel to be up and nobody has taken it down. -/
  want : Bool := false
deriving DecidableEq

/-- A definition as the manager caches it.  `ref` tells one copy from
another, as the source compares pointers. -/
structure Entry where
  defn : Def
  ref : Nat
  parsed : Except String Parsed
deriving DecidableEq

/-- What the manager's maps hold under one name. -/
structure Tunnel extends Entry where
  live : Live
deriving DecidableEq

def Tunnel.name (t : Tunnel) : String := t.defn.name

/-- A session's flags, shared by the goroutines that hold it. -/
structure TunnelSession where
  id : Nat
  stopping : Bool := false
  done : Bool := false
  /-- When its servers were last looked up again, in seconds. -/
  resolved : Int := 0
deriving DecidableEq

structure Manager where
  tunnels : KeyedTable Tunnel.name
  sessions : KeyedTable TunnelSession.id
  /-- The definitions on disk. -/
  disk : KeyedTable Def.name
  /-- Saved definitions that cannot be read. -/
  broken : List String := []
  /-- The tunnels the previous run asked to bring back. -/
  resume : List String := []
  /-- The ones this run will bring back after its own restart. -/
  restarting : List String := []
  closed : Bool := false
  nextRef : Nat := 0
  nextSession : Nat := 0

variable (m : Manager) (task : TunnelTask) (answer : Answer) (t : Tunnel)

def Manager.update (name : String) (change : Live → Live) : Manager :=
  match m.tunnels.find name with
  | none => m
  | some t =>
    { m with tunnels := m.tunnels.put { t with live := change t.live } }

def Manager.setSession (id : Nat) (change : TunnelSession → TunnelSession) :
    Manager :=
  match m.sessions.find id with
  | none => m
  | some s => { m with sessions := m.sessions.put (change s) }

/-- The session was told to stop. -/
def Manager.isStopping (id : Nat) : Bool :=
  (m.sessions.find id).any TunnelSession.stopping

/-- A definition takes its place; what is kept of its tunnel stays. -/
def Manager.cache (drivers : Drivers) (m : Manager) (d : Def) : Manager :=
  { m with
    tunnels := m.tunnels.put
      { defn := d
        ref := m.nextRef
        parsed := drivers.read d.type d.config
        live := ((m.tunnels.find d.name).map Tunnel.live).getD {} }
    nextRef := m.nextRef + 1 }

/-- Ask for tunnels to be up without connecting them. -/
def Tunnel.wanted (up : Bool) : Tunnel :=
  if up then { t with live := { t.live with want := true } } else t

theorem Tunnel.name_wanted (up : Bool) : (t.wanted up).name = t.name := by
  unfold wanted
  split <;> rfl

def Manager.new (drivers : Drivers) (defs : List Def) (broken resume : List String) : Manager :=
  let stored : Manager :=
    { tunnels := KeyedTable.empty
      sessions := KeyedTable.empty
      disk := defs.foldl KeyedTable.put KeyedTable.empty
      broken := broken
      resume := resume }
  let m := defs.foldl (Manager.cache drivers) stored
  { m with
    tunnels := m.tunnels.mapRows
      (fun t => t.wanted (t.defn.autoConnect || resume.contains t.name))
      (fun _ => Tunnel.name_wanted _ _) }

/-! ### What the engine routes -/

/-- The tunnel refuses its destinations now. -/
def Tunnel.blocking : Bool :=
  t.defn.blocks && t.live.want && (t.live.sess.isNone || t.live.state ≠ .connected)

def Tunnel.input : Option TunnelInput :=
  let block := t.defn.blocks && t.live.want
  if t.live.sess.isNone && !block then none
  else
    some
      { name := t.name
        iface :=
          if t.live.sess.isSome && t.live.state = .connected then t.live.iface
          else ""
        v6 := t.live.v6
        block := block
        routes := t.defn.routes
        bypass := t.live.bypass
        servers :=
          match t.live.sess, t.parsed with
          | none, .ok p => (configServers p).foldl (addNew id) t.live.servers
          | _, _ => t.live.servers }

/-- The tunnels with a session, and those that block. -/
def Manager.inputs : List TunnelInput :=
  (m.tunnels.rows.filterMap Tunnel.input).insertionSort fun a b => ¬ b.name < a.name

/-! ### Operations -/

/-- Who asked for a connection. -/
inductive Starter where
  | user
  /-- The startup, with the tunnels it goes on to. -/
  | auto (rest : List String)
  | save
  | reresolve
deriving DecidableEq

/-- Who asked for a stop. -/
inductive Stopper where
  | user
  | delete
  | save
  | reresolve
  /-- A panic or the shutdown. -/
  | all
deriving DecidableEq

/-- Operations and goroutines, by the section they come to next. -/
inductive TunnelTask where
  | connect (caller : Starter) (name : String)
  | connectStart (caller : Starter) (entry : Entry)
  | stop (caller : Stopper) (name : String) (keepWant : Bool)
  | signal (caller : Stopper) (name : String) (session : Nat)
  | await (caller : Stopper) (name : String) (session : Nat)
  | delete (name : String)
  | deleteFile (name : String)
  | deleteStore (name : String)
  | deleteForget (name : String)
  | deleteUndo (name : String)
  | save (spec : TunnelSpec)
  | saveRead (spec : TunnelSpec)
  | savePut (d : Def) (prev : Option Def)
  | saveCache (d : Def) (prev : Option Def)
  | saveFailed (name : String)
  | startAuto
  | autoFailed (name : String) (rest : List String)
  | remember (keepBlocks : Bool)
  | shutdown
  | disconnectAll
  | session (d : Def) (id : Nat)
  | finished (id : Nat)
  | reresolve (d : Def) (id : Nat)
  | resolving (d : Def) (id : Nat) (old : List Addr)
  | moved (d : Def) (id : Nat)
deriving DecidableEq

/-- What a driver makes of its session. -/
inductive DriverEvent where
  | resolved (bypass servers : List Addr)
  /-- WireGuard's device is there before its first handshake. -/
  | attached (iface : String)
  | connecting
  | connected (iface : String) (v6 : Bool) (server : Option Addr)
  /-- The connection's addresses are on another interface. -/
  | readdressed (iface : String) (v6 : Bool)
  | learned (servers : List Addr)
  | reconnecting
  /-- IKEv2's connection is made anew. -/
  | dropped

/-- What a section takes from outside. -/
inductive Answer where
  | go
  /-- The store's error, or a session that did not end in time. -/
  | fails
  /-- Why the driver or its engine cannot run the tunnel. -/
  | driver (check engine : Option String)
  | report (event : DriverEvent)
  | ended
  | clock (now : Int)
  /-- The servers' addresses, if their names resolved. -/
  | pins (found : Option (List Addr))

inductive ConnectError where
  | unreadable
  | unknown
  | deleting
  | invalid (err : String)
  | needsLogin
  | check (err : String)
  | engine (err : String)
  | shuttingDown
  | changed
deriving DecidableEq

def ConnectError.text (name : String) : ConnectError → String
  | .unreadable => "tunnel " ++ name ++
      "'s saved definition can't be read; delete it and add it again"
  | .unknown => "no tunnel named " ++ name.quote
  | .deleting => "tunnel " ++ name ++ " is being deleted"
  | .invalid err =>
    "tunnel " ++ name ++ ": profile is no longer valid: " ++ err
  | .needsLogin => "tunnel " ++ name ++ " needs a username and password"
  | .check err => "tunnel " ++ name ++ ": " ++ err
  | .engine err => err
  | .shuttingDown => "the daemon is shutting down"
  | .changed =>
    "tunnel " ++ name ++ " changed while connecting; try again"

/-! ### Connecting -/

/-- The first section of a connect: the definition to go by, or none for a
tunnel that is up. -/
def connectCheck (name : String) : Except ConnectError (Option Entry) :=
  if name ∈ m.broken then .error .unreadable
  else
    match m.tunnels.find name with
    | none => .error .unknown
    | some t =>
      if t.live.deleting then .error .deleting
      else if t.live.sess.isSome then .ok none
      else .ok (some t.toEntry)

/-- Between the sections: whether the definition can be connected. -/
def connectReady (entry : Entry) (check engine : Option String) : Except ConnectError Unit :=
  match entry.parsed with
  | .error e => .error (.invalid e)
  | .ok p =>
    if p.needsAuth ∧ (orString entry.defn.username p.inlineUser = "" ∨
        orString entry.defn.password p.inlinePass = "") then
      .error .needsLogin
    else
      match check, engine with
      | some e, _ => .error (.check e)
      | none, some e => .error (.engine e)
      | none, none => .ok ()

/-- A tunnel with a new session. -/
def Tunnel.started (id : Nat) : Tunnel :=
  { t with
    live :=
      { state := .connecting, sess := some id, want := true
        servers := t.live.servers } }

/-- The last section of a connect: the manager with a new session, or none for
a tunnel that is up. -/
def connectStart (entry : Entry) : Except ConnectError (Option Manager) :=
  if m.closed then .error .shuttingDown
  else
    match m.tunnels.find entry.defn.name with
    | none => .error .changed
    | some t =>
      if t.ref ≠ entry.ref ∨ t.live.deleting then .error .changed
      else if t.live.sess.isSome then .ok none
      else
        .ok (some
          { m with
            tunnels := m.tunnels.put (t.started m.nextSession)
            sessions := m.sessions.put { id := m.nextSession }
            nextSession := m.nextSession + 1 })

/-- The startup's next connect. -/
def autoFrom : List String → List TunnelTask
  | [] => []
  | name :: rest => [.connect (.auto rest) name]

/-- How the one who asked goes on after a connect. -/
def Starter.connected (caller : Starter) (name : String)
    (result : Except ConnectError Unit) : List TunnelTask :=
  match caller, result with
  | .auto rest, .ok () => autoFrom rest
  | .auto _, .error .shuttingDown => []
  | .auto rest, .error _ => [.autoFailed name rest]
  | .save, .error _ => [.saveFailed name]
  | _, _ => []

/-! ### Stopping -/

/-- What a stop's first section leaves of a tunnel. -/
def Live.stopped (keepWant : Bool) (r : Live) : Live :=
  { r with
    want := keepWant && r.want
    state := if r.sess.isNone then .disconnected else r.state }

/-- How the one who asked goes on after a stop. -/
def Stopper.stopped (caller : Stopper) (name : String) (ok : Bool) : List TunnelTask :=
  match caller, ok with
  | .delete, true => [.deleteStore name]
  | .delete, false => [.deleteUndo name]
  | .save, true => [.connect .save name]
  | .reresolve, true => [.connect .reresolve name]
  | _, _ => []

/-- A session's end, as its tunnel keeps it. -/
def Live.finished (stopping : Bool) (r : Live) : Live :=
  { r with
    sess := none
    iface := ""
    bypass := []
    servers := if r.want then r.servers else []
    state := if stopping then .disconnected else .failed
    since := r.since && !stopping }

/-- What a panic or the shutdown does at once to a tunnel without a
session. -/
def Live.released (keep : Bool) (r : Live) : Live :=
  if r.sess.isSome || !r.want || keep then r
  else
    { r with
      want := false
      state := if r.state = .failed then .disconnected else r.state }

def Tunnel.released (t : Tunnel) (keep : List String) : Tunnel :=
  { t with live := t.live.released (keep.contains t.name) }

theorem Tunnel.name_released (keep : List String) (t : Tunnel) :
    (t.released keep).name = t.name := rfl

/-! ### Sessions -/

/-- A driver's update.  An update goes by the tunnel's name, whichever session
it has by now. -/
def Live.report (event : DriverEvent) (r : Live) : Live :=
  match event with
  | .resolved bypass servers => { r with bypass := bypass, servers := servers }
  | .attached iface => { r with iface := iface }
  | .connecting =>
    if r.state = .reconnecting then r else { r with state := .connecting }
  | .connected iface v6 server =>
    { r with
      state := .connected
      failures := 0
      iface := iface
      v6 := v6
      since := true
      servers := server.toList.foldl (addNew id) r.servers }
  | .readdressed iface v6 => { r with iface := iface, v6 := v6 }
  | .learned servers => { r with servers := servers.foldl (addNew id) r.servers }
  | .reconnecting =>
    { r with state := .reconnecting, failures := r.failures + 1 }
  | .dropped =>
    { r with
      state := .reconnecting
      iface := ""
      failures := r.failures + 1 }

/-- OpenVPN looks its servers up again after every third failed reconnect of a
tunnel that was up. -/
def startsReresolve (d : Def) (event : DriverEvent) (r : Live) : Bool :=
  match event with
  | .reconnecting =>
    d.type = .openvpn && d.via = .direct && r.since && r.failures % 3 = 0
  | _ => false

/-- A save that changes how a live tunnel connects. -/
def reconnects (prev d : Def) : Bool :=
  prev.config ≠ d.config || prev.username ≠ d.username ||
    prev.password ≠ d.password || prev.via ≠ d.via

/-! ### The sections -/

def runConnection :
    Option (Manager × List TunnelTask) :=
  match task, answer with
  | .connect caller name, .go =>
    match connectCheck m name with
    | .error e => some (m, caller.connected name (.error e))
    | .ok none => some (m, caller.connected name (.ok ()))
    | .ok (some entry) => some (m, [.connectStart caller entry])
  | .connectStart caller entry, .driver check engine =>
    match connectReady entry check engine with
    | .error e => some (m, caller.connected entry.defn.name (.error e))
    | .ok () =>
      match connectStart m entry with
      | .error e => some (m, caller.connected entry.defn.name (.error e))
      | .ok none => some (m, caller.connected entry.defn.name (.ok ()))
      | .ok (some next) =>
        some (next, .session entry.defn m.nextSession :: caller.connected entry.defn.name (.ok ()))
  | .stop caller name keepWant, .go =>
    match m.tunnels.find name with
    | none => some (m, caller.stopped name false)
    | some t =>
      let next := m.update name (Live.stopped keepWant)
      match t.live.sess with
      | none => some (next, caller.stopped name true)
      | some id => some (next, [.signal caller name id])
  | .signal caller name id, .go =>
    some (m.setSession id fun s => { s with stopping := true }, [.await caller name id])
  | .await caller name id, .go =>
    if (m.sessions.find id).any TunnelSession.done then
      some (m, caller.stopped name true)
    else none
  | .await caller name _, .fails => some (m, caller.stopped name false)
  | _, _ => none

def runDelete :
    Option (Manager × List TunnelTask) :=
  match task, answer with
  | .delete name, .go =>
    if name ∈ m.broken then
      some ({ m with broken := m.broken.filter (· ≠ name) }, [.deleteFile name])
    else
      match m.tunnels.find name with
      | none => some (m, [])
      | some t =>
        if t.live.deleting then some (m, [])
        else
          some (m.update name fun r => { r with deleting := true }, [.stop .delete name false])
  | .deleteFile name, .go => some ({ m with disk := m.disk.erase name }, [])
  | .deleteFile _, .fails => some (m, [])
  | .deleteStore name, .go =>
    some ({ m with disk := m.disk.erase name }, [.deleteForget name])
  | .deleteStore name, .fails => some (m, [.deleteUndo name])
  | .deleteForget name, .go =>
    some ({ m with tunnels := m.tunnels.erase name }, [])
  | .deleteUndo name, .go =>
    some (m.update name fun r => { r with deleting := false }, [])
  | _, _ => none

/-- The values of a submission that have a default. -/
def TunnelSpec.withDefaults (spec : TunnelSpec) (prev : Option Def) : TunnelSpec :=
  { spec with
    type :=
      if spec.type = .unset then
        match prev with
        | some p => if p.type = .unset then .openvpn else p.type
        | none => .openvpn
      else spec.type
    via := if spec.via = .unset then .direct else spec.via }

/-- Saving a definition. -/
def runSave (drivers : Drivers) (m : Manager) (task : TunnelTask)
    (answer : Answer) : Option (Manager × List TunnelTask) :=
  match task, answer with
  | .save spec, .go =>
    let spec := { spec with name := trimSpace spec.name }
    some (m, [.saveRead (spec.withDefaults ((m.tunnels.find spec.name).map (·.defn)))])
  | .saveRead spec, .go =>
    let found := m.tunnels.find spec.name
    if found.any fun t => t.live.deleting then some (m, [])
    else
      let prev := found.map (·.defn)
      match savedDef drivers spec prev with
      | .error _ => some (m, [])
      | .ok d => some (m, [.savePut d prev])
  | .savePut d prev, .go =>
    some ({ m with disk := m.disk.put d }, [.saveCache d prev])
  | .savePut _ _, .fails => some (m, [])
  | .saveCache d prev, .go =>
    let next := Manager.cache drivers { m with broken := m.broken.filter (· ≠ d.name) } d
    let running := (next.tunnels.find d.name).any fun t => t.live.sess.isSome
    some (next, if running && prev.any fun p => reconnects p d then
        [.stop .save d.name true]
      else [])
  | .saveFailed name, .go =>
    some (m.update name fun r =>
      if r.sess.isNone then { r with state := .failed } else r, [])
  | _, _ => none

/-- The startup, a restart, the shutdown and a panic. -/
def runAll :
    Option (Manager × List TunnelTask) :=
  match task, answer with
  | .startAuto, .go =>
    if m.closed then some (m, [])
    else
      let names := (m.tunnels.rows.filter fun t =>
        t.defn.autoConnect || m.resume.contains t.name).map Tunnel.name
      some ({ m with resume := [] }, autoFrom (names.insertionSort fun a b => ¬ b < a))
  | .autoFailed name rest, .go =>
    some (m.update name fun r =>
        if r.sess.isNone then { r with state := .failed, want := true }
        else r,
      autoFrom rest)
  | .remember keepBlocks, .go =>
    let back := m.tunnels.rows.filter fun t =>
      (t.live.sess.any fun id => !m.isStopping id) || keepBlocks && t.blocking
    some ({ m with
      restarting := if keepBlocks then back.map Tunnel.name else [] }, [])
  | .shutdown, .go =>
    if m.closed then some (m, [])
    else some ({ m with closed := true }, [.disconnectAll])
  | .disconnectAll, .go =>
    let keep := if m.closed then m.restarting else []
    let running := m.tunnels.rows.filter fun t => t.live.sess.isSome
    some ({ m with
        tunnels := m.tunnels.mapRows (·.released keep)
          (Tunnel.name_released keep) },
      running.map fun t => .stop .all t.name (keep.contains t.name))
  | _, _ => none

/-- Sessions and re-resolves. -/
def runSession :
    Option (Manager × List TunnelTask) :=
  match task, answer with
  | .session d id, .report event =>
    let next := m.update d.name (Live.report event)
    let again := (next.tunnels.find d.name).any fun t => startsReresolve d event t.live
    some (next, .session d id :: if again then [.reresolve d id] else [])
  | .session d id, .ended =>
    some (m.update d.name fun r =>
        if r.sess = some id then r.finished (m.isStopping id) else r,
      [.finished id])
  | .finished id, .go =>
    some (m.setSession id fun s => { s with done := true }, [])
  | .reresolve d id, .clock now =>
    match m.sessions.find id with
    | none => some (m, [])
    | some s =>
      if now - s.resolved < 60 then some (m, [])
      else
        let next := m.setSession id fun s => { s with resolved := now }
        match m.tunnels.find d.name with
        | none => some (next, [])
        | some t =>
          match t.parsed with
          | .error _ => some (next, [])
          | .ok p =>
            if t.live.sess = some id && hasHostname p.remotes then
              some (next, [.resolving d id t.live.bypass])
            else some (next, [])
  | .resolving d id old, .pins found =>
    match found with
    | none => some (m, [])
    | some pins =>
      if old.isPerm pins then some (m, []) else some (m, [.moved d id])
  | .moved d id, .go =>
    let current := (m.tunnels.find d.name).any fun t => t.live.sess = some id
    some (m, if current && !m.isStopping id then [.stop .reresolve d.name false]
      else [])
  | _, _ => none

def runSection (drivers : Drivers) (m : Manager) (task : TunnelTask)
    (answer : Answer) : Option (Manager × List TunnelTask) :=
  match task with
  | .connect .. | .connectStart .. | .stop .. | .signal .. | .await .. =>
    runConnection m task answer
  | .delete _ | .deleteFile _ | .deleteStore _ | .deleteForget _
  | .deleteUndo _ => runDelete m task answer
  | .save _ | .saveRead _ | .savePut .. | .saveCache .. | .saveFailed _ =>
    runSave drivers m task answer
  | .startAuto | .autoFailed .. | .remember _ | .shutdown | .disconnectAll =>
    runAll m task answer
  | .session .. | .finished _ | .reresolve .. | .resolving .. | .moved .. =>
    runSession m task answer

/-- The operations a caller may begin: a connect or a disconnect of a tunnel,
a delete, a save, the startup, a restart, the shutdown and a panic. -/
def isOperation : TunnelTask → Bool
  | .connect caller _ => caller = .user
  | .stop caller _ keepWant => caller = .user && !keepWant
  | .delete _ | .save _ | .startAuto | .remember _ | .shutdown
  | .disconnectAll => true
  | _ => false

/-- Every interleaving of operations, sessions and re-resolves. -/
def managerMachine (drivers : Drivers) :
    Machine (Pool Manager TunnelTask) (Act TunnelTask Answer) :=
  Pool.machine isOperation (runSection drivers)

open List

section BlockRuns

variable {drivers : Drivers} {m after : Manager} {name : String}
  {task : TunnelTask} {answer : Answer} {left : List TunnelTask}

/-! ### Wanted tunnels -/

def Manager.wants (m : Manager) (name : String) : Bool :=
  (m.tunnels.find name).any fun t => t.live.want

theorem wants_iff : m.wants name ↔ ∃ t, m.tunnels.find name = some t ∧ t.live.want := by
  rw [Manager.wants, Option.any_eq_true]

theorem block_of_wants (wanted : m.wants name)
    (blocks : ∀ t, m.tunnels.find name = some t → t.defn.blocks) :
    ∃ input ∈ m.inputs, input.name = name ∧ input.block := by
  obtain ⟨t, found, want⟩ := wants_iff.mp wanted
  have block : (t.defn.blocks && t.live.want) = true := by
    rw [blocks t found, want]
    rfl
  have listed : ∃ input, t.input = some input ∧ input.name = t.name ∧ input.block := by
    unfold Tunnel.input
    rw [block]
    simp
  obtain ⟨input, reported, named, refused⟩ := listed
  refine ⟨input, ?_, named.trans (KeyedTable.key_of_find found), refused⟩
  apply (mem_insertionSort _).mpr
  exact mem_filterMap.mpr ⟨t, KeyedTable.mem_of_find found, reported⟩

/-! ### What keeps a tunnel wanted -/

theorem wants_put {t : Tunnel} (wanted : m.wants name) (keeps : t.name = name → t.live.want) :
    Manager.wants { m with tunnels := m.tunnels.put t } name := by
  rw [Manager.wants, KeyedTable.find_put]
  split
  case isTrue same => simpa using keeps same
  case isFalse => exact wanted

theorem wants_update {other : String} {change : Live → Live} (wanted : m.wants name)
    (keeps : other = name → ∀ r : Live, r.want → (change r).want) :
    (m.update other change).wants name := by
  unfold Manager.update
  split
  case h_1 => exact wanted
  case h_2 t found =>
    apply wants_put wanted
    intro same
    have key : t.name = other := KeyedTable.key_of_find found
    have here : other = name := key.symm.trans same
    obtain ⟨u, known, want⟩ := wants_iff.mp wanted
    rw [← here, found] at known
    obtain rfl := Option.some.inj known
    exact keeps here t.live want

theorem wants_setSession {id : Nat} {change : TunnelSession → TunnelSession}
    (wanted : m.wants name) : (m.setSession id change).wants name := by
  unfold Manager.setSession
  split
  · exact wanted
  · exact wanted

theorem wants_cache {d : Def} (wanted : m.wants name) : (Manager.cache drivers m d).wants name := by
  apply wants_put wanted
  intro same
  obtain ⟨t, found, want⟩ := wants_iff.mp wanted
  have here : m.tunnels.find d.name = some t := by
    rw [← found, ← same]
    rfl
  simp [here, want]

theorem wants_connectStart {entry : Entry} {next : Manager}
    (wanted : m.wants name) (started : connectStart m entry = .ok (some next)) :
    next.wants name := by
  revert started
  fun_cases connectStart with
  | case5 =>
    rintro ⟨⟩
    exact wants_put wanted fun _ => rfl
  | _ => rintro ⟨⟩

theorem want_report (event : DriverEvent) (r : Live) : (r.report event).want = r.want := by
  cases event with
  | connecting =>
    simp only [Live.report]
    split <;> rfl
  | _ => rfl

/-! ### Sections that keep a tunnel wanted -/

section

variable (wanted : m.wants name)

include wanted

theorem wants_runConnection
    (spared : ∀ caller keepWant, task = .stop caller name keepWant → keepWant)
    (ran : runConnection m task answer = some (after, left)) :
    after.wants name := by
  revert ran
  fun_cases runConnection with
  | case7 caller entry check engine ready next started =>
    rintro ⟨⟩
    exact wants_connectStart wanted started
  | case9 caller other keepWant t found next | case10 caller other keepWant t found next =>
    intro ran
    obtain ⟨rfl, -⟩ := Prod.mk.inj (Option.some.inj ran)
    apply wants_update wanted
    rintro rfl r want
    have keep := spared caller keepWant rfl
    simp [Live.stopped, keep, want]
  | case11 =>
    rintro ⟨⟩
    exact wants_setSession wanted
  | _ => rintro ⟨⟩ <;> exact wanted

theorem wants_runDelete (spared : task ≠ .deleteForget name)
    (ran : runDelete m task answer = some (after, left)) :
    after.wants name := by
  revert ran
  fun_cases runDelete with
  | case4 | case10 =>
    rintro ⟨⟩
    exact wants_update wanted fun _ _ want => want
  | case9 other =>
    rintro ⟨⟩
    have apart : ¬ other = name := fun same => spared (same ▸ rfl)
    rw [Manager.wants, KeyedTable.find_erase, if_neg apart]
    exact wanted
  | _ => rintro ⟨⟩ <;> exact wanted

theorem wants_runSave (ran : runSave drivers m task answer = some (after, left)) :
    after.wants name := by
  revert ran
  fun_cases runSave with
  | case7 d prev next =>
    intro ran
    obtain ⟨rfl, -⟩ := Prod.mk.inj (Option.some.inj ran)
    apply wants_cache
    exact wanted
  | case8 =>
    rintro ⟨⟩
    apply wants_update wanted
    intro _ r want
    split <;> exact want
  | _ => rintro ⟨⟩ <;> exact wanted

theorem wants_runAll (spared : task = .disconnectAll →
      (m.tunnels.find name).any fun t => t.live.sess.isSome)
    (ran : runAll m task answer = some (after, left)) :
    after.wants name := by
  revert ran
  fun_cases runAll with
  | case3 =>
    rintro ⟨⟩
    apply wants_update wanted
    intro _ r want
    split
    · rfl
    · exact want
  | case7 =>
    rintro ⟨⟩
    obtain ⟨t, found, want⟩ := wants_iff.mp wanted
    have running := spared rfl
    rw [found, Option.any_some] at running
    simp [Manager.wants, KeyedTable.find_mapRows, found, Tunnel.released,
      Live.released, running, want]
  | _ => rintro ⟨⟩ <;> exact wanted

theorem wants_runSession (ran : runSession m task answer = some (after, left)) :
    after.wants name := by
  revert ran
  fun_cases runSession with
  | case1 d id event next =>
    intro ran
    obtain ⟨rfl, -⟩ := Prod.mk.inj (Option.some.inj ran)
    apply wants_update wanted
    intro _ r want
    rw [want_report]
    exact want
  | case2 =>
    rintro ⟨⟩
    apply wants_update wanted
    intro _ r want
    split <;> exact want
  | case3 =>
    rintro ⟨⟩
    exact wants_setSession wanted
  | case6 | case7 | case8 | case9 =>
    intro ran
    obtain ⟨rfl, -⟩ := Prod.mk.inj (Option.some.inj ran)
    exact wants_setSession wanted
  | _ => rintro ⟨⟩ <;> exact wanted

end

/-! ### Taking a tunnel down -/

/-- The section takes the tunnel down for a user: a disconnect's or a delete's
stop, a panic coming to it, the end of a delete, the shutdown. -/
def takesDown (name : String) (m : Manager) : TunnelTask → Bool
  | .stop caller other keepWant =>
    other = name && caller ≠ .reresolve && !keepWant
  | .deleteForget other => other = name
  | .disconnectAll =>
    !(m.tunnels.find name).any fun t => t.live.sess.isSome
  | .shutdown => true
  | _ => false

/-- The section has a re-resolve restart the tunnel's session: its servers'
addresses moved, and the session is the tunnel's and was not told to stop. -/
def restartsSession (name : String) (m : Manager) : TunnelTask → Bool
  | .moved d id =>
    d.name = name && !m.isStopping id && (m.tunnels.find name).any fun t => t.live.sess = some id
  | _ => false

/-- What is left to do holds no stop of the tunnel by a re-resolve. -/
def NoRestart (name : String) (task : TunnelTask) : Prop :=
  ∀ keepWant, task ≠ .stop .reresolve name keepWant

theorem runSection_cases {result : Manager × List TunnelTask}
    (ran : runSection drivers m task answer = some result) :
    runConnection m task answer = some result ∨ runDelete m task answer = some result ∨
      runSave drivers m task answer = some result ∨
      runAll m task answer = some result ∨
      runSession m task answer = some result := by
  cases task <;> simp only [runSection] at ran <;> simp [ran]

theorem wants_runSection (wanted : m.wants name)
    (up : takesDown name m task = false) (steady : NoRestart name task)
    (ran : runSection drivers m task answer = some (after, left)) :
    after.wants name := by
  rcases runSection_cases ran with ran | ran | ran | ran | ran
  · refine wants_runConnection wanted ?_ ran
    rintro caller keepWant rfl
    have other : caller ≠ .reresolve := fun same => steady keepWant (same ▸ rfl)
    simpa [takesDown, other] using up
  · refine wants_runDelete wanted ?_ ran
    rintro rfl
    simp [takesDown] at up
  · exact wants_runSave wanted ran
  · refine wants_runAll wanted ?_ ran
    rintro rfl
    simpa [takesDown] using up
  · exact wants_runSession wanted ran

/-! ### Where a re-resolve's stop comes from -/

theorem noRestart_autoFrom (name : String) (rest : List String) :
    ∀ next ∈ autoFrom rest, NoRestart name next := by
  rintro next member keepWant rfl
  cases rest with
  | nil => cases member
  | cons first rest => simp [autoFrom] at member

theorem noRestart_connected (name : String) (caller : Starter)
    (other : String) (result : Except ConnectError Unit) :
    ∀ next ∈ caller.connected other result, NoRestart name next := by
  intro next member
  unfold Starter.connected at member
  split at member
  case h_1 rest => exact noRestart_autoFrom name rest next member
  case h_2 => cases member
  case h_3 =>
    obtain rfl := mem_singleton.mp member
    exact fun _ => nofun
  case h_4 =>
    obtain rfl := mem_singleton.mp member
    exact fun _ => nofun
  case h_5 => cases member

theorem noRestart_stopped (name : String) (caller : Stopper) (other : String) (ok : Bool) :
    ∀ next ∈ caller.stopped other ok, NoRestart name next := by
  rintro next member keepWant rfl
  cases caller <;> cases ok <;> simp [Stopper.stopped] at member

theorem noRestart_runConnection (ran : runConnection m task answer = some (after, left)) :
    ∀ next ∈ left, NoRestart name next := by
  have connects := noRestart_connected name
  have stops := noRestart_stopped name
  unfold runConnection at ran
  grind [NoRestart]

theorem noRestart_runDelete (ran : runDelete m task answer = some (after, left)) :
    ∀ next ∈ left, NoRestart name next := by
  unfold runDelete at ran
  grind [NoRestart]

theorem noRestart_runSave (ran : runSave drivers m task answer = some (after, left)) :
    ∀ next ∈ left, NoRestart name next := by
  unfold runSave at ran
  grind [NoRestart]

theorem noRestart_runAll (ran : runAll m task answer = some (after, left)) :
    ∀ next ∈ left, NoRestart name next := by
  have autos := noRestart_autoFrom name
  unfold runAll at ran
  all_goals grind [NoRestart]

theorem noRestart_runSession (steady : restartsSession name m task = false)
    (ran : runSession m task answer = some (after, left)) :
    ∀ next ∈ left, NoRestart name next := by
  unfold runSession at ran
  split at ran
  case h_6 d id =>
    cases ran
    rintro next member keepWant rfl
    split at member
    case isFalse => cases member
    rename_i restarts
    obtain ⟨current, running⟩ := Bool.and_eq_true_iff.mp restarts
    obtain ⟨_, rfl, _⟩ := TunnelTask.stop.inj (mem_singleton.mp member)
    rw [restartsSession, current, running] at steady
    simp at steady
  all_goals grind [NoRestart]

theorem noRestart_runSection (steady : restartsSession name m task = false)
    (ran : runSection drivers m task answer = some (after, left)) :
    ∀ next ∈ left, NoRestart name next := by
  rcases runSection_cases ran with ran | ran | ran | ran | ran
  · exact noRestart_runConnection ran
  · exact noRestart_runDelete ran
  · exact noRestart_runSave ran
  · exact noRestart_runAll ran
  · exact noRestart_runSession steady ran

theorem noRestart_of_isOperation (begins : isOperation task) : NoRestart name task := by
  rintro keepWant rfl
  simp [isOperation] at begins

/-! ### Connects -/

/-- The section is a connect's that returns without an error. -/
def connectReturns (name : String) (m : Manager) : TunnelTask → Answer → Bool
  | .connect _ other, .go =>
    other = name && match connectCheck m other with
      | .ok none => true
      | _ => false
  | .connectStart _ entry, .driver check engine =>
    entry.defn.name = name && (connectReady entry check engine).isOk && (connectStart m entry).isOk
  | _, _ => false

/-- The tunnel has a session that it was already taken down from. -/
def goingDown (m : Manager) (name : String) : Bool :=
  (m.tunnels.find name).any fun t => t.live.sess.isSome && !t.live.want

theorem want_of_up {t : Tunnel} (found : m.tunnels.find name = some t)
    (session : t.live.sess.isSome) (running : goingDown m name = false) :
    m.wants name := by
  rw [goingDown, found, Option.any_some, session] at running
  rw [Manager.wants, found, Option.any_some]
  simpa using running

theorem wants_of_connectCheck (up : connectCheck m name = .ok none)
    (running : goingDown m name = false) : m.wants name := by
  revert up
  fun_cases connectCheck with
  | case4 _ t found _ session => exact fun _ => want_of_up found session running
  | _ => rintro ⟨⟩

theorem wants_of_connectStart {entry : Entry} {result : Option Manager}
    (started : connectStart m entry = .ok result)
    (running : goingDown m entry.defn.name = false) :
    (result.getD m).wants entry.defn.name := by
  revert started
  fun_cases connectStart with
  | case4 _ t found _ session =>
    rintro ⟨⟩
    exact want_of_up found session running
  | case5 _ t found =>
    rintro ⟨⟩
    have key : t.name = entry.defn.name := KeyedTable.key_of_find found
    have same : (t.started m.nextSession).name = entry.defn.name := key
    rw [Option.getD_some, Manager.wants, KeyedTable.find_put, if_pos same]
    rfl
  | _ => rintro ⟨⟩

theorem wants_of_connectReturns (returned : connectReturns name m task answer)
    (running : goingDown m name = false)
    (ran : runSection drivers m task answer = some (after, left)) :
    after.wants name := by
  unfold connectReturns at returned
  split at returned
  case h_1 =>
    obtain ⟨same, up⟩ := Bool.and_eq_true_iff.mp returned
    obtain rfl := of_decide_eq_true same
    split at up
    case h_1 checked =>
      simp only [runSection, runConnection, checked] at ran
      cases ran
      exact wants_of_connectCheck checked running
    case h_2 => cases up
  case h_2 caller entry check engine =>
    obtain ⟨named, started⟩ := Bool.and_eq_true_iff.mp returned
    obtain ⟨same, ready⟩ := Bool.and_eq_true_iff.mp named
    obtain rfl := of_decide_eq_true same
    simp only [runSection, runConnection] at ran
    split at ran
    case h_1 refused =>
      rw [refused] at ready
      cases ready
    case h_2 =>
      split at ran
      case h_1 refused =>
        rw [refused] at started
        cases started
      case h_2 up =>
        cases ran
        exact wants_of_connectStart up running
      case h_3 next up =>
        cases ran
        exact wants_of_connectStart up running
  case h_3 => cases returned

/-! ### Runs -/

/-- Block mode does not lapse on its own: from a connect that returns, until
the tunnel is taken down, it is reported as blocking as long as it is set to
block, in every interleaving in which no re-resolve restarts its session and
where the connect did not come upon a session already going down. -/
theorem block_never_lapses {pool connecting connected reached :
      Pool Manager TunnelTask} {acts later : List (Act TunnelTask Answer)}
    (fresh : pool.tasks = [])
    (ran : (managerMachine drivers).run pool acts = some connecting)
    (stepped : (managerMachine drivers).step connecting (.go task answer) = some connected)
    (returned : connectReturns name connecting.shared task answer)
    (onward : (managerMachine drivers).run connected later = some reached)
    (up : (managerMachine drivers).Along (Pool.sections fun m task =>
      takesDown name m task = false ∧ restartsSession name m task = false)
      connected later)
    (blocks : ∀ t, reached.shared.tunnels.find name = some t → t.defn.blocks)
    (steady : (managerMachine drivers).Along (Pool.sections fun m task =>
      restartsSession name m task = false) pool acts)
    (running : goingDown connecting.shared name = false) :
    ∃ input ∈ reached.shared.inputs, input.name = name ∧ input.block := by
  -- No stop by a re-resolve is pending when the connect comes.
  have before := (Pool.invariant (fun _ => True) (NoRestart name)
    (fun _ => noRestart_of_isOperation)
    (fun _ _ _ _ _ _ _ ok went => ⟨trivial, noRestart_runSection ok went⟩)
    trivial (by simp [fresh]) steady ran).2
  obtain ⟨waiting, left, went, after⟩ := Pool.step_go stepped
  have wanted := wants_of_connectReturns returned running went
  have pending : ∀ next ∈ connected.tasks, NoRestart name next := by
    rw [after]
    intro next member
    rcases mem_append.mp member with old | new
    · exact before next (mem_of_mem_erase old)
    · refine noRestart_runSection ?_ went next new
      unfold connectReturns at returned
      split at returned
      · rfl
      · rfl
      · cases returned
  -- From there on every section keeps it wanted and leaves no such stop.
  have kept := (Pool.invariant (fun m : Manager => m.wants name)
    (NoRestart name) (fun _ => noRestart_of_isOperation)
    (fun _ _ _ _ _ held quiet ok went =>
      ⟨wants_runSection held ok.1 quiet went, noRestart_runSection ok.2 went⟩)
    wanted pending up onward).1
  exact block_of_wants kept blocks

end BlockRuns

namespace OfficeTunnel

/-- Its configuration names its server. -/
def profile : Parsed where
  remotes := [{ host := "vpn.example.com", port := 1194, proto := .udp }]

def drivers : Drivers where
  parse _ _ := .ok profile

def office : Def where
  name := "office"
  type := .openvpn
  config := "client"
  routes := ["10.0.0.0/8"]
  whenDown := .block

def start : Pool Manager TunnelTask where
  shared := Manager.new drivers [office] [] []
  tasks := []

def dialling : List (Act TunnelTask Answer) :=
  [.start (.connect .user "office"), .go (.connect .user "office") .go]

def starting : TunnelTask := .connectStart .user { defn := office, ref := 0, parsed := .ok profile }

def dialled : List (Act TunnelTask Answer) := dialling ++ [.go starting (.driver none none)]

def reports (event : DriverEvent) : Act TunnelTask Answer := .go (.session office 0) (.report event)

/-- It comes up and fails. -/
def ending : List (Act TunnelTask Answer) :=
  [reports (.connected "tun0" false none), .go (.session office 0) .ended]

/-- It comes up, and after three failed reconnects its server is found at
another address. -/
def moving : List (Act TunnelTask Answer) :=
  [reports (.resolved [.v4 0xc0000201#32] []),
    reports (.connected "tun0" false none), reports .reconnecting,
    reports .reconnecting, reports .reconnecting,
    .go (.reresolve office 0) (.clock 1000),
    .go (.resolving office 0 [.v4 0xc0000201#32]) (.pins (some [.v4 0xc0000202#32])),
    .go (.moved office 0) .go, .go (.stop .reresolve "office" false) .go]

/-- The user takes the tunnel down; its session is still ending. -/
def hangingUp : List (Act TunnelTask Answer) :=
  [.start (.stop .user "office" false), .go (.stop .user "office" false) .go,
    .start (.connect .user "office")]

/-- No operation begins. -/
def quiet (acts : List (Act TunnelTask Answer)) : Bool :=
  acts.all fun act =>
    match act with
    | .start _ => false
    | .go _ _ => true

/-- Where a run leads. -/
def reach (acts : List (Act TunnelTask Answer)) : Pool Manager TunnelTask :=
  ((managerMachine drivers).run start acts).getD start

def reported (pool : Pool Manager TunnelTask) : List (String × Bool) :=
  pool.shared.inputs.map fun input => (input.name, input.block)

end OfficeTunnel

open OfficeTunnel

/-- A session that fails leaves its tunnel blocking. -/
theorem failed_office_blocks : (managerMachine drivers).run start (dialled ++ ending) =
        some (reach (dialled ++ ending)) ∧
      ∃ input ∈ (reach (dialled ++ ending)).shared.inputs, input.name = "office" ∧ input.block := by
  have rung : (managerMachine drivers).run start dialling = some (reach dialling) := rfl
  have answered : (managerMachine drivers).step (reach dialling)
      (.go starting (.driver none none)) = some (reach dialled) := rfl
  have ended : (managerMachine drivers).run (reach dialled) ending =
      some (reach (dialled ++ ending)) := rfl
  have up : (managerMachine drivers).Along (Pool.sections fun m task =>
      takesDown "office" m task = false ∧
        restartsSession "office" m task = false) (reach dialled) ending :=
    .of_forall (fun _ member _ => by
      rcases member with _ | ⟨_, _ | ⟨_, ⟨⟩⟩⟩ <;> exact ⟨rfl, rfl⟩) _
  have steady : (managerMachine drivers).Along (Pool.sections fun m task =>
      restartsSession "office" m task = false) start dialling :=
    .of_forall (fun _ member _ => by
      rcases member with _ | ⟨_, _ | ⟨_, ⟨⟩⟩⟩ <;> trivial) _
  have blocks : ∀ t, (reach (dialled ++ ending)).shared.tunnels.find "office" = some t →
        t.defn.blocks := by
    intro t found
    obtain rfl := Option.some.inj found
    rfl
  exact ⟨rfl, block_never_lapses rfl rung answered rfl ended up blocks steady rfl⟩

/-- Two ways the block lapses.  With nothing but the session under way, its
re-resolve disconnects the tunnel to connect it again.  And a connect returns
for a tunnel whose session a disconnect is still ending. -/
theorem block_lapses : ((managerMachine drivers).run start dialled).map
        (fun pool => (pool.tasks, reported pool)) = some ([.session office 0], [("office", true)]) ∧
      quiet moving ∧
      ((managerMachine drivers).run start (dialled ++ moving)).map
        reported = some [("office", false)] ∧
      ((managerMachine drivers).run start (dialled ++ hangingUp)).map
        (fun pool => connectReturns "office" pool.shared
          (.connect .user "office") .go) = some true ∧
      ((managerMachine drivers).run start
        (dialled ++ hangingUp ++ [.go (.connect .user "office") .go])).map
          reported = some [("office", false)] := by
  decide +kernel

end RiftRoute
