/-
Module: RiftRoute.Core.Explain
Purpose: The simulated decision of an explained target: the first longest match
  among the listed routes that are not tagged RiftRoute's and the desired ones.
Trusted boundary: human-reviewed spec
Main exports: explain, Decides
-/
import Mathlib.Data.List.MinMax
import RiftRoute.Routing.Installed

namespace RiftRoute.Explain

open List

open Netip (Addr parsePrefix)

/-- An item that scores takes the place of one that scores less. -/
def keepHigher {α : Type} (score : α → Option Nat) (best : Option α) (x : α) : Option α :=
  match score x with
  | none => best
  | some n => if (best.bind score).all (· < n) then some x else best

def firstHighest {α : Type} (score : α → Option Nat) (xs : List α) : Option α :=
  xs.foldl (keepHigher score) none

variable (target : Addr)

def matchedBits (r : Route) : Option Nat :=
  (parsePrefix r.dstCIDR).bind fun p =>
    if p.addr.is6 = target.is6 ∧ p.contains target then some p.bits else none

/-- A decision without the tunnel that `markTunnel` names on it. -/
structure RouteDecision where
  target : String
  source : String
  family : Family
  matchedCIDR : String := ""
  gateway : String := ""
  iface : String := ""
  owner : Owner := .unset
  profile : String := ""
  viaVPN : Bool := false
  reachable : Bool := false
  rejected : Bool := false
deriving DecidableEq

def familyOf : Family := if target.is6 then .v6 else .v4

/-- What a matching route, if any, decides. -/
def decisionOf (vpnByIface : String → Bool) : Option Route → RouteDecision
  | none => ⟨target.text, "simulated", familyOf target, "", "", "", .unset, "", false, false, false⟩
  | some r =>
    let d : RouteDecision :=
      { target := target.text, source := "simulated", family := familyOf target
        matchedCIDR := r.dstCIDR, owner := r.owner, profile := r.profile }
    if r.reject then { d with rejected := true }
    else
      { d with gateway := r.gateway, iface := r.iface, viaVPN := vpnByIface r.iface
               reachable := true }

def simulate (routes : List Route) (target : Addr) (vpnByIface : String → Bool) : RouteDecision :=
  decisionOf target vpnByIface (firstHighest (matchedBits target) routes)

/-- Whose a route of the overlay is: another program's, RiftRoute's as the kernel
holds it, or a desired one. -/
inductive Origin
  | foreign
  | installed
  | desired
deriving DecidableEq

structure Entry where
  route : Route
  origin : Origin
deriving DecidableEq

/-- A route as the provider lists it; RiftRoute's own may carry its tag. -/
structure Listed where
  route : Route
  own : Bool
  tagged : route.owner = .riftRoute → own = true

def Listed.entry (l : Listed) : Entry := ⟨l.route, if l.own then .installed else .foreign⟩

def desiredEntries (desired : List ManagedRoute) (fam : Family) : List Entry :=
  (desired.filter fun mr => mr.route.family = fam ∧ mr.route.table = "").map
    fun mr => ⟨mr.route, .desired⟩

/-- The listed routes that are not tagged, and the desired ones. -/
def overlay (listing : List Listed) (desired : List ManagedRoute) (fam : Family) : List Entry :=
  (listing.filter fun l => l.route.owner ≠ .riftRoute).map Listed.entry ++
    desiredEntries desired fam

/-- The simulated decision of `Explain`. -/
def explain (listing : List Listed) (desired : List ManagedRoute) (target : Addr)
    (vpnByIface : String → Bool) : RouteDecision :=
  simulate ((overlay listing desired (familyOf target)).map Entry.route) target vpnByIface

/-! ### The deciding entry -/

section Deciding

variable {α β : Type} {score : α → Option Nat}

theorem firstHighest_eq_argmax (xs : List α) : firstHighest score xs =
    (xs.filter fun x => (score x).isSome).argmax fun x => (score x).getD 0 := by
  induction xs using reverseRecOn with
  | nil => rfl
  | append_singleton xs x ih =>
    rw [firstHighest, foldl_append, foldl_cons, foldl_nil, ← firstHighest, ih,
      keepHigher, filter_append]
    cases scored : score x with
    | none => simp [scored]
    | some n =>
      have kept : [x].filter (fun x => (score x).isSome) = [x] := by simp [scored]
      rw [kept, argmax_concat]
      cases best : (xs.filter fun x => (score x).isSome).argmax fun x => (score x).getD 0 with
      | none => simp
      | some y =>
        obtain ⟨m, found⟩ := Option.isSome_iff_exists.mp
          (mem_filter.mp (argmax_mem best)).2
        simp [scored, found]

theorem firstHighest_map (f : β → α) (xs : List β) :
    firstHighest score (xs.map f) = (firstHighest (score ∘ f) xs).map f := by
  rw [firstHighest, foldl_map]
  have step : ∀ best x, keepHigher score (best.map f) (f x) =
      (keepHigher (score ∘ f) best x).map f := by
    intro best x
    cases scored : score (f x) with
    | none => simp [keepHigher, scored]
    | some n => cases best <;> simp [keepHigher, scored, apply_ite (Option.map f)]
  exact @List.foldl_hom _ _ _ (Option.map f) (keepHigher (score ∘ f))
    (fun best x => keepHigher score best (f x)) xs none step

theorem mem_argmax_filter {f : α → Nat} {p : α → Bool} {c : α} {xs : List α}
    (highest : c ∈ xs.argmax f) (kept : p c = true) : c ∈ (xs.filter p).argmax f := by
  induction xs using reverseRecOn generalizing c with
  | nil => cases highest
  | append_singleton xs x ih =>
    rw [argmax_concat] at highest
    rw [filter_append]
    cases best : xs.argmax f with
    | none =>
      obtain rfl := argmax_eq_none.mp best
      obtain rfl : x = c := by simpa [best] using highest
      simp [kept]
    | some d =>
      simp only [best] at highest
      split at highest
      · next more =>
        obtain rfl : x = c := by simpa using highest
        rw [filter_cons_of_pos kept, filter_nil, argmax_concat]
        cases other : (xs.filter p).argmax f with
        | none => simp
        | some e =>
          have less := le_of_mem_argmax (mem_of_mem_filter (argmax_mem other)) best
          simp [lt_of_le_of_lt less more]
      · next less =>
        obtain rfl : d = c := by simpa using highest
        have inside := ih best kept
        by_cases also : p x = true
        · rw [filter_cons_of_pos also, filter_nil, argmax_concat, inside]
          simp [less]
        · simpa [also] using inside

end Deciding

def decider (entries : List Entry) : Option Entry :=
  firstHighest (fun e => matchedBits target e.route) entries

theorem explain_eq (listing : List Listed) (desired : List ManagedRoute) (target : Addr)
    (vpnByIface : String → Bool) : explain listing desired target vpnByIface =
      decisionOf target vpnByIface
        ((decider target (overlay listing desired (familyOf target))).map Entry.route) := by
  rw [explain, simulate, firstHighest_map]
  rfl

/-! ### The reconciled table -/

/-- A foreign route of the main table, or a desired one. -/
def Entry.reconciled (e : Entry) : Bool :=
  e.origin = .desired ∨
    e.origin = .foreign ∧ e.route.cloned = false ∧ e.route.isScoped = false ∧ e.route.table = ""

def reconciledTable (listing : List Listed) (desired : List ManagedRoute) (fam : Family) :
    List Entry :=
  ((listing.filter fun l => !l.own).filter fun l => l.entry.reconciled).map Listed.entry ++
    desiredEntries desired fam

def matching (entries : List Entry) : List Entry :=
  entries.filter fun e => (matchedBits target e.route).isSome

def Entry.bits (e : Entry) : Nat := (matchedBits target e.route).getD 0

/-- An entry of a table has the longest prefix and, of these, the lowest effective
metric; nothing decides where nothing matches. -/
structure Decides (target : Addr) (table : List Entry) (decided : Option Entry) : Prop where
  unmatched : decided = none → matching target table = []
  best : ∀ e, decided = some e → e ∈ matching target table ∧ ∀ other ∈ matching target table,
    other.bits target < e.bits target ∨ other.bits target = e.bits target ∧
      effectiveMetric e.route ≤ effectiveMetric other.route

/-- What is not in the reconciled table is beaten by what is: by a longer match,
or by one as long that is listed before it; and the first longest match of the
reconciled table has the lowest metric of these. -/
structure Undisturbed (target : Addr) (entries : List Entry) : Prop where
  beaten : ∀ e ∈ matching target entries, e.reconciled = false →
    ∃ better ∈ matching target entries, better.reconciled = true ∧
      (e.bits target < better.bits target ∨ e.bits target = better.bits target ∧
        (matching target entries).idxOf better < (matching target entries).idxOf e)
  lowest : ∀ e ∈ ((matching target entries).filter Entry.reconciled).argmax (Entry.bits target),
    ∀ other ∈ (matching target entries).filter Entry.reconciled,
      other.bits target = e.bits target → effectiveMetric e.route ≤ effectiveMetric other.route

instance (target : Addr) : DecidablePred (Undisturbed target) := fun entries =>
  decidable_of_iff
    ((∀ e ∈ matching target entries, e.reconciled = false → ∃ better ∈ matching target entries,
      better.reconciled = true ∧ (e.bits target < better.bits target ∨ _ ∧ _)) ∧
      ∀ e ∈ ((matching target entries).filter Entry.reconciled).argmax (Entry.bits target),
        ∀ other ∈ (matching target entries).filter Entry.reconciled, _ → _)
    ⟨fun both => ⟨both.1, both.2⟩, fun whole => ⟨whole.1, whole.2⟩⟩

section Tables

variable {target : Addr} {entries : List Entry}

theorem decider_eq_argmax (entries : List Entry) :
    decider target entries = (matching target entries).argmax (Entry.bits target) :=
  firstHighest_eq_argmax entries

theorem matching_filter : matching target (entries.filter Entry.reconciled) =
    (matching target entries).filter Entry.reconciled := by
  simp only [matching, filter_filter, Bool.and_comm]

theorem overlay_reconciled (listing : List Listed) (desired : List ManagedRoute) (fam : Family) :
    (overlay listing desired fam).filter Entry.reconciled =
      reconciledTable listing desired fam := by
  have all : (desiredEntries desired fam).filter Entry.reconciled = desiredEntries desired fam := by
    rw [filter_eq_self]
    intro e member
    obtain ⟨mr, -, rfl⟩ := mem_map.mp member
    rfl
  rw [overlay, filter_append, all, reconciledTable, filter_map, filter_filter,
    filter_filter]
  refine congrArg (List.map Listed.entry · ++ _) (filter_congr fun l _ => ?_)
  cases own : l.own with
  | true => simp [Listed.entry, Entry.reconciled, own]
  | false =>
    have untagged : l.route.owner ≠ .riftRoute := fun tag => by simp [l.tagged tag] at own
    simp [untagged]

theorem Undisturbed.decider (undisturbed : Undisturbed target entries) :
    decider target entries = decider target (entries.filter Entry.reconciled) := by
  rw [decider_eq_argmax, decider_eq_argmax, matching_filter]
  cases decided : (matching target entries).argmax (Entry.bits target) with
  | none => simp [argmax_eq_none.mp decided]
  | some e =>
    refine (mem_argmax_filter decided ?_).symm
    by_contra foreign
    obtain ⟨better, member, -, longer | ⟨same, before⟩⟩ :=
      undisturbed.beaten e (argmax_mem decided) (by simpa using foreign)
    · exact absurd (le_of_mem_argmax member decided) (by omega)
    · exact absurd (index_of_argmax decided member same.le) (by omega)

theorem decides_iff : Decides target (entries.filter Entry.reconciled) (decider target entries) ↔
    Undisturbed target entries := by
  constructor
  · intro decides
    have chosen : ∀ e ∈ matching target entries, ∃ c,
        c ∈ (matching target entries).argmax (Entry.bits target) ∧ c.reconciled = true ∧
          ∀ other ∈ (matching target entries).filter Entry.reconciled,
            other.bits target < c.bits target ∨ other.bits target = c.bits target ∧
              effectiveMetric c.route ≤ effectiveMetric other.route := by
      intro e member
      obtain ⟨c, decided⟩ : ∃ c, (matching target entries).argmax (Entry.bits target) = some c :=
        Option.ne_none_iff_exists'.mp fun none =>
          ne_nil_of_mem member (argmax_eq_none.mp none)
      have best := decides.best c (by rw [decider_eq_argmax, decided])
      rw [matching_filter] at best
      exact ⟨c, decided, (mem_filter.mp best.1).2, best.2⟩
    constructor
    · intro e member foreign
      obtain ⟨c, decided, ours, -⟩ := chosen e member
      refine ⟨c, argmax_mem decided, ours, ?_⟩
      refine (lt_or_eq_of_le (le_of_mem_argmax member decided)).imp id fun same => ⟨same, ?_⟩
      refine lt_of_le_of_ne (index_of_argmax decided member same.ge) fun index => ?_
      obtain rfl := (idxOf_inj (argmax_mem decided)).mp index
      simp [ours] at foreign
    · intro e first other member same
      obtain ⟨c, decided, ours, best⟩ :=
        chosen e (mem_of_mem_filter (argmax_mem first))
      obtain rfl := Option.mem_unique first (mem_argmax_filter decided ours)
      exact (best other member).elim (fun less => absurd same less.ne) And.right
  · intro undisturbed
    have decided := undisturbed.decider
    rw [decider_eq_argmax (entries.filter _)] at decided
    constructor
    · intro none
      exact argmax_eq_none.mp (decided.symm.trans none)
    · intro e isDecider
      have first := decided.symm.trans isDecider
      refine ⟨argmax_mem first, fun other member => ?_⟩
      rw [matching_filter] at first member
      exact (lt_or_eq_of_le (le_of_mem_argmax member first)).imp id fun same =>
        ⟨same, undisturbed.lowest e first other member same⟩

end Tables

/-- Explain's decision is that of an entry, which decides the reconciled table
exactly when nothing disturbs it; and then it is the same for any other managed
routes in the kernel. -/
theorem explain_simulates_iff (listing : List Listed) (desired : List ManagedRoute)
    (target : Addr) (vpnByIface : String → Bool) :
    (∃ decided, explain listing desired target vpnByIface =
        decisionOf target vpnByIface (decided.map Entry.route) ∧
      decided = decider target (overlay listing desired (familyOf target)) ∧
      (Decides target (reconciledTable listing desired (familyOf target)) decided ↔
        Undisturbed target (overlay listing desired (familyOf target)))) ∧
    ∀ other : List Listed, (other.filter fun l => !l.own) = (listing.filter fun l => !l.own) →
      Undisturbed target (overlay listing desired (familyOf target)) →
      Undisturbed target (overlay other desired (familyOf target)) →
      explain other desired target vpnByIface = explain listing desired target vpnByIface := by
  refine ⟨⟨_, explain_eq listing desired target vpnByIface, rfl, ?_⟩, ?_⟩
  · rw [← overlay_reconciled]
    exact decides_iff
  · intro other same undisturbed otherUndisturbed
    rw [explain_eq, explain_eq, undisturbed.decider, otherUndisturbed.decider, overlay_reconciled,
      overlay_reconciled, reconciledTable, reconciledTable, same]

def listedRoute (dst iface : String) (own : Bool) : Listed :=
  ⟨{ dstCIDR := dst, iface := iface, owner := .system }, own, by simp⟩

def explained : Addr := .v4 0x0a000001#32

/-- A route of RiftRoute's that is no longer desired decides, although it goes. -/
theorem stale_route_explained :
    (explain [listedRoute "0.0.0.0/0" "en0" false, listedRoute "10.0.0.0/8" "utun4" true] []
      explained fun _ => false).iface = "utun4" ∧
    (explain [listedRoute "0.0.0.0/0" "en0" false] [] explained fun _ => false).iface = "en0" := by
  decide

def defaultOnly : List Listed := [listedRoute "0.0.0.0/0" "en0" false]

/-- RiftRoute's routes elsewhere do not change what is explained. -/
theorem explained_beside_own_route :
    Undisturbed explained (overlay defaultOnly [] .v4) ∧
      explain (listedRoute "172.16.0.0/12" "utun4" true :: defaultOnly) [] explained
        (fun _ => false) = explain defaultOnly [] explained fun _ => false :=
  ⟨by decide, (explain_simulates_iff defaultOnly [] explained fun _ => false).2
    (listedRoute "172.16.0.0/12" "utun4" true :: defaultOnly) rfl (by decide) (by decide)⟩

end RiftRoute.Explain
