/-
Module: RiftRoute.Routing.SameProfiles
Purpose: What a plan asks for and what a desired set depends on, by
  identities.  Two inputs that differ in the order of the profiles, in disabled
  profiles and in lists no enabled profile names can both be built or neither,
  and ask for the same routes and rules.
Trusted boundary: none
-/
import RiftRoute.Routing.BuildDesired

namespace RiftRoute

open List

/-- An operation by what it does and to which route or rule. -/
inductive Request where
  | addRoute (k : RouteKey)
  | delRoute (k : RouteKey)
  | addRule (k : RuleKey)
  | delRule (k : RuleKey)
deriving DecidableEq, Repr

def Effect.request : Effect → Request
  | .addRoute mr => .addRoute mr.key
  | .delRoute mr => .delRoute mr.key
  | .addRule mr => .addRule mr.key
  | .delRule mr => .delRule mr.key

/-- What a list of operations asks for. -/
def requests (ops : List PlanOp) : List Request := (effects ops).map Effect.request

def Plan.requests (p : Plan) : List Request := RiftRoute.requests p.ops

@[simp] theorem requests_append (first second : List PlanOp) :
    requests (first ++ second) = requests first ++ requests second := by
  simp [requests]

@[simp] theorem requests_add (mr : ManagedRoute) (platform : String) :
    requests [makeRouteOp .addRoute mr platform] = [.addRoute mr.key] := rfl

@[simp] theorem requests_del (mr : ManagedRoute) (platform : String) :
    requests [makeRouteOp .delRoute mr platform] = [.delRoute mr.key] := rfl

/-! ### The loop over the desired routes -/

section Loop

variable (platform : String) {desired actual : List ManagedRoute}

/-- What the loop has asked for: the deletions are those it remembers, all of
routes that are there and not wanted, and it asks for nothing of the rules. -/
structure LoopAsks (desired actual : List ManagedRoute) (s : AddLoop) : Prop
    where
  dels : ∀ k, .delRoute k ∈ requests s.routeAdds ↔ k ∈ s.replaced
  unwanted : ∀ k ∈ s.replaced, k ∈ actual.map ManagedRoute.key ∧ k ∉ desired.map ManagedRoute.key
  rules : ∀ k, .addRule k ∉ requests s.routeAdds ∧ .delRule k ∉ requests s.routeAdds

theorem LoopAsks.replaceOld {s : AddLoop} {old : ManagedRoute} (asks : LoopAsks desired actual s)
    (there : old.key ∈ actual.map ManagedRoute.key)
    (unwanted : old.key ∉ desired.map ManagedRoute.key) :
    LoopAsks desired actual (s.replaceOld platform old) := by
  unfold AddLoop.replaceOld
  split
  case isTrue => exact asks
  case isFalse =>
    refine ⟨fun k => ?_, ?_, fun k => ?_⟩
    · simp [asks.dels k, or_comm]
    · intro k member
      rcases mem_cons.mp member with rfl | before
      · exact ⟨there, unwanted⟩
      · exact asks.unwanted k before
    · simpa using asks.rules k

theorem LoopAsks.addDesired {s : AddLoop} {d : ManagedRoute} (asks : LoopAsks desired actual s) :
    LoopAsks desired actual (s.addDesired platform (indexRoutes actual)
      (byDst (indexRoutes desired) actual) d) := by
  unfold AddLoop.addDesired
  split
  case isTrue => exact asks
  case isFalse =>
    have olds : LoopAsks desired actual ((byDst (indexRoutes desired) actual d.dst).foldl
          (AddLoop.replaceOld platform) s) := by
      apply foldl_invariant (LoopAsks desired actual) ?_ asks
      intro s old member held
      rw [byDst_eq] at member
      obtain ⟨there, _, unwanted⟩ := mem_oldsAt.mp member
      exact held.replaceOld platform (mem_map_of_mem there) unwanted
    exact ⟨by simpa using olds.dels, olds.unwanted, by simpa using olds.rules⟩

theorem addRoute_mem_replaceOld {olds : List ManagedRoute} {s : AddLoop} {k : RouteKey} :
    .addRoute k ∈ requests (olds.foldl (AddLoop.replaceOld platform) s).routeAdds ↔
      .addRoute k ∈ requests s.routeAdds := by
  induction olds generalizing s with
  | nil => rfl
  | cons old olds ih =>
    rw [foldl_cons, ih, AddLoop.replaceOld]
    split <;> simp

theorem addRoute_mem_loop {ds : List ManagedRoute} {s : AddLoop} {k : RouteKey} :
    .addRoute k ∈ requests (ds.foldl (AddLoop.addDesired platform (indexRoutes actual)
          (byDst (indexRoutes desired) actual)) s).routeAdds ↔
      .addRoute k ∈ requests s.routeAdds ∨
        k ∈ ds.map ManagedRoute.key ∧ k ∉ actual.map ManagedRoute.key := by
  induction ds generalizing s with
  | nil => simp
  | cons d ds ih =>
    rw [foldl_cons, ih, map_cons, mem_cons]
    by_cases present : d.key ∈ actual.map ManagedRoute.key
    · rw [addDesired_of_present platform present]
      have there : k = d.key → k ∈ actual.map ManagedRoute.key := fun same => same ▸ present
      tauto
    · have one : .addRoute k ∈ requests (s.addDesired platform
          (indexRoutes actual) (byDst (indexRoutes desired) actual)
          d).routeAdds ↔ .addRoute k ∈ requests s.routeAdds ∨ k = d.key := by
        rw [addDesired_of_absent platform present]
        simp [addRoute_mem_replaceOld]
      have absent : k = d.key → k ∉ actual.map ManagedRoute.key := fun same => same ▸ present
      tauto

end Loop

/-! ### The whole plan -/

/-- What a plan from one set to another asks for. -/
def Wanted (desired actual : List ManagedRoute)
    (desiredRules actualRules : List ManagedRule) : Request → Prop
  | .addRoute k =>
    k ∈ desired.map ManagedRoute.key ∧ k ∉ actual.map ManagedRoute.key
  | .delRoute k =>
    k ∈ actual.map ManagedRoute.key ∧ k ∉ desired.map ManagedRoute.key
  | .addRule k =>
    k ∈ desiredRules.map ManagedRule.key ∧ k ∉ actualRules.map ManagedRule.key
  | .delRule k =>
    k ∈ actualRules.map ManagedRule.key ∧ k ∉ desiredRules.map ManagedRule.key

theorem requests_map_delRoute (rs : List ManagedRoute) (platform : String) :
    requests (rs.map fun a => makeRouteOp .delRoute a platform) =
      rs.map fun a => .delRoute a.key := by
  simp [requests, effects_map_delRoute, Function.comp_def, Effect.request]

theorem requests_map_addRule (rs : List ManagedRule) :
    requests (rs.map (makeRuleOp .addRule)) = rs.map fun r => .addRule r.key := by
  simp [requests, effects_map_addRule, Function.comp_def, Effect.request]

theorem requests_map_delRule (rs : List ManagedRule) :
    requests (rs.map (makeRuleOp .delRule)) = rs.map fun r => .delRule r.key := by
  simp [requests, effects_map_delRule, Function.comp_def, Effect.request]

theorem mem_key_filter_iff {α κ : Type} [DecidableEq κ] {key : α → κ}
    {items others : List α} {k : κ} :
    (∃ a ∈ items.filter fun a => (indexBy key others (key a)).isNone,
        key a = k) ↔ k ∈ items.map key ∧ k ∉ others.map key := by
  simp only [mem_filter, indexBy_isNone]
  constructor
  · rintro ⟨a, ⟨member, absent⟩, rfl⟩
    exact ⟨mem_map_of_mem member, absent⟩
  · rintro ⟨there, absent⟩
    obtain ⟨a, member, rfl⟩ := mem_map.mp there
    exact ⟨a, ⟨member, absent⟩, rfl⟩

theorem mem_requests_reconcile {desired actual : List ManagedRoute}
    {desiredRules actualRules : List ManagedRule} {platform : String}
    {r : Request} :
    r ∈ (reconcile desired actual desiredRules actualRules platform).requests ↔
      Wanted desired actual desiredRules actualRules r := by
  have asks : LoopAsks desired actual (desired.foldl
      (AddLoop.addDesired platform (indexRoutes actual)
        (byDst (indexRoutes desired) actual)) {}) := by
    apply foldl_invariant (LoopAsks desired actual)
    · exact fun _ _ _ held => held.addDesired platform
    · exact ⟨by simp [requests, effects], by simp, by simp [requests, effects]⟩
  simp only [Plan.requests, reconcile, requests_append, requests_map_delRoute,
    requests_map_addRule, requests_map_delRule, mem_append, mem_map]
  cases r with
  | addRoute k =>
    rw [addRoute_mem_loop]
    simp [requests, effects, Wanted]
  | delRoute k =>
    rw [asks.dels]
    simp only [reduceCtorEq, and_false, exists_false, or_false, Request.delRoute.injEq, Wanted]
    constructor
    · rintro (replaced | ⟨a, listed, rfl⟩)
      · exact asks.unwanted k replaced
      · obtain ⟨member, gone⟩ := mem_filter.mp listed
        rw [Bool.and_eq_true] at gone
        exact ⟨mem_map_of_mem member, indexBy_isNone.mp gone.1⟩
    · rintro ⟨there, unwanted⟩
      obtain ⟨a, member, rfl⟩ := mem_map.mp there
      refine or_iff_not_imp_left.mpr fun kept => ⟨a, ?_, rfl⟩
      apply mem_filter.mpr
      refine ⟨member, ?_⟩
      rw [Bool.and_eq_true]
      exact ⟨indexBy_isNone.mpr unwanted, by simpa using kept⟩
  | addRule k =>
    simp only [(asks.rules k).1, reduceCtorEq, and_false, exists_false,
      or_false, false_or, Request.addRule.injEq, Wanted]
    exact mem_key_filter_iff
  | delRule k =>
    simp only [(asks.rules k).2, reduceCtorEq, and_false, exists_false,
      or_false, false_or, Request.delRule.injEq, Wanted]
    exact mem_key_filter_iff

/-! ### What depends on identities only -/

theorem requests_congr {desired other actual : List ManagedRoute}
    {rules otherRules actualRules : List ManagedRule} {platform : String}
    (routes : SameKeys ManagedRoute.key desired other)
    (ruleKeys : SameKeys ManagedRule.key rules otherRules) (r : Request) :
    r ∈ (reconcile desired actual rules actualRules platform).requests ↔
      r ∈ (reconcile other actual otherRules actualRules platform).requests := by
  rw [mem_requests_reconcile, mem_requests_reconcile]
  cases r with
  | addRoute k | delRoute k => simp only [Wanted, routes k]
  | addRule k | delRule k => simp only [Wanted, ruleKeys k]

theorem kept_congr {desired other owned : List ManagedRoute}
    {read : Family → Option (List Route)} {held : RouteKey → Bool}
    {only : ManagedRoute → Bool}
    (routes : SameKeys ManagedRoute.key desired other) :
    (verifyRoutes desired read held only owned).kept =
      (verifyRoutes other read held only owned).kept := by
  have wanted : ∀ k, (indexRoutes desired k).isSome = (indexRoutes other k).isSome := by
    intro k
    rw [Bool.eq_iff_iff, indexRoutes, indexRoutes, indexBy_isSome, indexBy_isSome]
    exact routes k
  rw [verifyRoutes_kept, verifyRoutes_kept]
  apply filter_congr
  intro o _
  rw [keepsRoute, keepsRoute, wanted]

def DesiredInput.withProfiles (inp : DesiredInput) (ps : List Profile)
    (ls : String → List String) : DesiredInput :=
  { inp with profiles := ps, lists := ls }

/-- The enabled profiles are those of the input, and the lists they name have
the same entries. -/
structure SameEnabled (inp : DesiredInput) (ps : List Profile)
    (ls : String → List String) : Prop where
  members : ∀ p : Profile, p.enabled → (p ∈ inp.profiles ↔ p ∈ ps)
  lists : ∀ p ∈ ps, p.enabled → ∀ l ∈ p.lists, ls l = inp.lists l

theorem SameEnabled.symm {inp : DesiredInput} {ps : List Profile}
    {ls : String → List String} (same : SameEnabled inp ps ls) :
    SameEnabled (inp.withProfiles ps ls) inp.profiles inp.lists where
  members p enabled := (same.members p enabled).symm
  lists p member enabled l named :=
    (same.lists p ((same.members p enabled).mp member) enabled l named).symm

/-! ### One profile -/

section OneProfile

variable {inp : DesiredInput} {ps : List Profile} {ls : String → List String}
  {tunnels : TunnelPlan} {p : Profile}

section

variable (agree : ∀ l ∈ p.lists, ls l = inp.lists l)

include agree

theorem profilePrefixes_withProfiles (fam : Family) :
    profilePrefixes p (inp.withProfiles ps ls) fam = profilePrefixes p inp fam := by
  have entries : (p.lists.flatMap fun l => (ls l).filterMap entryToPrefix) =
      p.lists.flatMap fun l => (inp.lists l).filterMap entryToPrefix := by
    rw [flatMap_def, flatMap_def]
    congr 1
    apply map_congr_left
    intro l named
    rw [agree l named]
  unfold profilePrefixes
  dsimp only [DesiredInput.withProfiles]
  rw [entries]
  rfl

theorem excludePrefixes_withProfiles (fam : Family) :
    excludePrefixes (inp.withProfiles ps ls) tunnels p fam = excludePrefixes inp tunnels p fam := by
  unfold excludePrefixes
  rw [profilePrefixes_withProfiles agree]
  rfl

theorem includePrefixes_withProfiles (fam : Family) :
    includePrefixes (inp.withProfiles ps ls) tunnels p fam = includePrefixes inp tunnels p fam := by
  unfold includePrefixes
  rw [profilePrefixes_withProfiles agree]
  rfl

theorem tableRules_withProfiles :
    tableRules (inp.withProfiles ps ls) tunnels p = tableRules inp tunnels p := by
  unfold tableRules
  rw [show includePrefixes (inp.withProfiles ps ls) tunnels p = includePrefixes inp tunnels p from
      funext (includePrefixes_withProfiles agree)]
  rfl

theorem buildProfile_withProfiles (b : Build) :
    buildProfile (inp.withProfiles ps ls) tunnels b p = buildProfile inp tunnels b p := by
  have exclude : excludeFamily (inp.withProfiles ps ls) tunnels p =
      excludeFamily inp tunnels p := by
    funext st fam
    unfold excludeFamily
    rw [excludePrefixes_withProfiles agree]
    rfl
  have darwin : darwinDestinations (inp.withProfiles ps ls) tunnels p =
      darwinDestinations inp tunnels p := by
    funext rules fam
    unfold darwinDestinations
    rw [includePrefixes_withProfiles agree]
    rfl
  unfold buildProfile buildExclude buildInclude buildDarwinInclude
  rw [exclude, tableRules_withProfiles agree, darwin]
  rfl

theorem profileRoutes_withProfiles :
    profileRoutes (inp.withProfiles ps ls) tunnels p = profileRoutes inp tunnels p := by
  have family : excludeRoutes (inp.withProfiles ps ls) tunnels p = excludeRoutes inp tunnels p := by
    funext fam
    unfold excludeRoutes
    rw [excludePrefixes_withProfiles agree]
    rfl
  unfold profileRoutes
  rw [family]

theorem profileRules_withProfiles :
    profileRules (inp.withProfiles ps ls) tunnels p = profileRules inp tunnels p := by
  have prefixes : includePrefixes (inp.withProfiles ps ls) tunnels p =
      includePrefixes inp tunnels p :=
    funext (includePrefixes_withProfiles agree)
  unfold profileRules includeRules
  rw [tableRules_withProfiles agree, prefixes]
  rfl

end

end OneProfile

/-! ### Whether a profile can be built -/

section Anywhere

variable {inp : DesiredInput} {tunnels : TunnelPlan} {p : Profile}

theorem excludeFamily_anywhere {st after : Excluding} {fam : Family}
    (stepped : excludeFamily inp tunnels p st fam = .ok after)
    (routes : List ManagedRoute) :
    ∃ gathered, excludeFamily inp tunnels p { st with routes := routes } fam =
      .ok { after with routes := gathered } := by
  unfold excludeFamily at stepped ⊢
  dsimp only at stepped ⊢
  split at stepped
  case isTrue none =>
    rw [if_pos none]
    obtain rfl := Except.ok.inj stepped
    exact ⟨routes, rfl⟩
  case isFalse some =>
    rw [if_neg some]
    split at stepped
    case h_1 err _ =>
      split at stepped
      case isTrue skips =>
        rw [if_pos skips]
        obtain rfl := Except.ok.inj stepped
        exact ⟨routes, rfl⟩
      case isFalse => cases stepped
    case h_2 =>
      obtain rfl := Except.ok.inj stepped
      exact ⟨_, rfl⟩

theorem excludeFamilies_anywhere {fams : List Family} {st after : Excluding}
    (ended : fams.foldlM (excludeFamily inp tunnels p) st = .ok after)
    (routes : List ManagedRoute) :
    ∃ gathered, fams.foldlM (excludeFamily inp tunnels p)
      { st with routes := routes } = .ok { after with routes := gathered } := by
  induction fams generalizing st routes with
  | nil =>
    obtain rfl : st = after := Except.ok.inj ended
    exact ⟨routes, rfl⟩
  | cons fam fams ih =>
    obtain ⟨next, stepped, ended⟩ := exists_of_bind_ok ended
    obtain ⟨gathered, here⟩ := excludeFamily_anywhere stepped routes
    obtain ⟨last, rest⟩ := ih ended gathered
    refine ⟨last, ?_⟩
    rw [foldlM_cons, here]
    exact rest

theorem buildExclude_anywhere {b after : Build}
    (ended : buildExclude inp tunnels b p = .ok after) (other : Build) :
    ∃ built, buildExclude inp tunnels other p = .ok built := by
  unfold buildExclude at ended ⊢
  obtain ⟨st, looped, ended⟩ := exists_of_bind_ok ended
  obtain ⟨gathered, again⟩ := excludeFamilies_anywhere looped other.routes
  rw [again]
  split at ended
  case isTrue => cases ended
  rename_i placed
  refine ⟨{ other with routes := gathered }, ?_⟩
  exact if_neg placed

section

variable {rules after : List ManagedRule}

theorem darwinDestinations_anywhere {fam : Family}
    (ended : darwinDestinations inp tunnels p rules fam = .ok after)
    (other : List ManagedRule) :
    ∃ built, darwinDestinations inp tunnels p other fam = .ok built := by
  apply foldlM_ends
  · intro first second pfx next stepped
    split at stepped
    case h_1 => cases stepped
    case h_2 => exact ⟨_, rfl⟩
  · intro pfx member
    exact foldlM_step ended member

theorem darwinApp_anywhere {r : Rule}
    (ended : darwinApp inp p rules r = .ok after)
    (other : List ManagedRule) :
    ∃ built, darwinApp inp p other r = .ok built := by
  unfold darwinApp at ended ⊢
  split at ended
  case isTrue otherKind =>
    rw [if_pos otherKind]
    exact ⟨_, rfl⟩
  case isFalse app =>
    rw [if_neg app]
    split at ended
    case isTrue => cases ended
    rename_i user
    rw [if_neg user]
    dsimp only at ended ⊢
    split at ended
    case isTrue => cases ended
    rename_i steered
    rw [if_neg steered]
    exact ⟨_, rfl⟩

theorem buildDarwinInclude_anywhere (ended : buildDarwinInclude inp tunnels p rules = .ok after)
    (other : List ManagedRule) :
    ∃ built, buildDarwinInclude inp tunnels p other = .ok built := by
  unfold buildDarwinInclude at ended ⊢
  obtain ⟨middle, looped, ended⟩ := exists_of_bind_ok ended
  obtain ⟨first, destinations⟩ :
      ∃ first, families.foldlM (darwinDestinations inp tunnels p) other = .ok first := by
    apply foldlM_ends
    · intro _ others _ _ stepped
      exact darwinDestinations_anywhere stepped others
    · intro _ member
      exact foldlM_step looped member
  rw [destinations]
  apply foldlM_ends
  · intro _ others _ _ stepped
    exact darwinApp_anywhere stepped others
  · intro _ member
    exact foldlM_step ended member

end

theorem buildProfile_anywhere {b after : Build}
    (ended : buildProfile inp tunnels b p = .ok after) (other : Build) :
    ∃ built, buildProfile inp tunnels other p = .ok built := by
  unfold buildProfile at ended ⊢
  split at ended
  case isTrue off =>
    rw [if_pos off]
    exact ⟨other, rfl⟩
  case isFalse on =>
    rw [if_neg on]
    split at ended
    case isFalse exclude =>
      rw [if_neg exclude]
      exact buildExclude_anywhere ended other
    case isTrue include' =>
      rw [if_pos include']
      unfold buildInclude at ended ⊢
      split at ended
      case isTrue => cases ended
      rename_i able
      rw [if_neg able]
      split at ended
      case isFalse table =>
        rw [if_neg table]
        exact ⟨_, rfl⟩
      case isTrue darwin =>
        rw [if_pos darwin]
        obtain ⟨rules, built, ended⟩ := exists_of_bind_ok ended
        obtain ⟨again, found⟩ := buildDarwinInclude_anywhere built other.rules
        rw [found]
        exact ⟨_, rfl⟩

end Anywhere

/-! ### The families that need the dedicated table -/

section Families

variable {inp : DesiredInput} {tunnels : TunnelPlan} {p : Profile}

def FamiliesNoted (inp : DesiredInput) (b : Build) : Prop :=
  ∀ fam, fam ∈ b.includeFamilies ↔
    inp.platform ≠ "darwin" ∧ some fam ∈ b.rules.map fun r => r.key.family

theorem FamiliesNoted.addIncludeRule {b : Build} {entry : Family × ManagedRule}
    (noted : FamiliesNoted inp b) (linux : inp.platform ≠ "darwin")
    (family : entry.2.key.family = some entry.1) :
    FamiliesNoted inp (addIncludeRule b entry) := by
  unfold RiftRoute.addIncludeRule
  split
  case isTrue => exact noted
  case isFalse =>
    intro fam
    simp only [mem_cons, noted fam, map_append, mem_append,
      map_cons, map_nil, family, Option.some.injEq, linux, ne_eq,
      not_false_eq_true, true_and, not_mem_nil, or_false]
    exact or_comm

theorem family_of_mem_tableRules {entry : Family × ManagedRule}
    (member : entry ∈ tableRules inp tunnels p) :
    entry.2.key.family = some entry.1 := by
  rcases mem_append.mp member with destination | app
  · obtain ⟨fam, _, within⟩ := mem_flatMap.mp destination
    obtain ⟨pfx, _, rfl⟩ := mem_map.mp within
    rfl
  · split at app
    case isTrue =>
      obtain rfl := mem_singleton.mp app
      rfl
    case isFalse => simp at app

theorem FamiliesNoted.buildProfile {b after : Build}
    (ended : buildProfile inp tunnels b p = .ok after)
    (noted : FamiliesNoted inp b) : FamiliesNoted inp after := by
  unfold RiftRoute.buildProfile at ended
  split at ended
  case isTrue =>
    obtain rfl := Except.ok.inj ended
    exact noted
  case isFalse =>
    split at ended
    case isFalse =>
      unfold buildExclude at ended
      obtain ⟨st, looped, ended⟩ := exists_of_bind_ok ended
      change (if 0 < st.families ∧ st.skipped = st.families then
        .error (profileError p st.skipErr)
        else .ok { b with routes := st.routes }) = Except.ok after at ended
      split at ended
      case isTrue => cases ended
      obtain rfl := Except.ok.inj ended
      exact noted
    case isTrue =>
      unfold buildInclude at ended
      split at ended
      case isTrue => cases ended
      split at ended
      case isTrue darwin =>
        obtain ⟨rules, built, ended⟩ := exists_of_bind_ok ended
        obtain rfl := Except.ok.inj ended
        intro fam
        change fam ∈ b.includeFamilies ↔ _
        rw [noted fam]
        simp [darwin]
      case isFalse linux =>
        obtain rfl := Except.ok.inj ended
        apply foldl_invariant (FamiliesNoted inp) ?_ noted
        intro s entry member held
        exact held.addIncludeRule linux (family_of_mem_tableRules member)

end Families

/-! ### Placing and Tailscale, by identities -/

section Identities

variable {xs ys : List ManagedRoute} {us vs : List ManagedRule}

theorem place_sameKeys (tp : TunnelPlan) (same : SameKeys ManagedRoute.key xs ys) :
    SameKeys ManagedRoute.key (tp.place xs) (tp.place ys) := by
  -- the destinations taken are the same sets throughout
  have run : ∀ (planned : List ManagedRoute) (taken taken' : List DstKey)
      (xs ys : List ManagedRoute), (∀ dst, dst ∈ taken ↔ dst ∈ taken') →
      SameKeys ManagedRoute.key xs ys →
      SameKeys ManagedRoute.key (planned.foldl placeRoute (taken, xs)).2
        (planned.foldl placeRoute (taken', ys)).2 := by
    intro planned
    induction planned with
    | nil => exact fun _ _ _ _ _ same => same
    | cons r planned ih =>
      intro taken taken' xs ys dsts same
      rw [foldl_cons, foldl_cons, placeRoute, placeRoute]
      by_cases held : r.dst ∈ taken
      · rw [if_pos held, if_pos ((dsts _).mp held)]
        exact ih taken taken' xs ys dsts same
      · rw [if_neg held, if_neg fun other => held ((dsts _).mpr other)]
        apply ih
        · intro dst
          rw [mem_cons, mem_cons, dsts]
        · have one : SameKeys ManagedRoute.key [r] [r] := fun _ => Iff.rfl
          exact same.grow one
  apply run
  · intro dst
    have dsts : ∀ zs : List ManagedRoute, zs.map ManagedRoute.dst =
        (zs.map ManagedRoute.key).map RouteKey.dst := by
      intro zs
      rw [map_map]
      rfl
    rw [dsts, dsts, mem_map, mem_map]
    exact exists_congr fun k => and_congr_left fun _ => same k
  · exact same

theorem key_bypassCopy (r : ManagedRoute) : (bypassCopy r).key =
      { r.key with dst := { r.key.dst with table := bypassTable } } :=
  rfl

theorem familyRules_congr {fams others : List Family} (priority : Int)
    (selector table : String) (inp : TailscaleInput)
    (same : ∀ fam, fam ∈ fams ↔ fam ∈ others) :
    familyRules fams priority selector table inp =
      familyRules others priority selector table inp := by
  have kept : ([Family.v4, Family.v6].filter (· ∈ fams)) =
      [Family.v4, Family.v6].filter (· ∈ others) := by
    apply filter_congr
    intro fam _
    exact decide_eq_decide.mpr (same fam)
  unfold familyRules
  rw [kept]

theorem mem_families_iff (same : SameKeys ManagedRoute.key xs ys) (fam : Family) :
    fam ∈ (xs.map fun r => r.route.family) ↔ fam ∈ ys.map fun r => r.route.family := by
  have families : ∀ zs : List ManagedRoute, (zs.map fun r => r.route.family) =
      (zs.map ManagedRoute.key).map fun k => k.dst.family := by
    intro zs
    rw [map_map]
    rfl
  rw [families, families, mem_map, mem_map]
  exact exists_congr fun k => and_congr_left fun _ => same k

theorem besideTailscale_sameKeys (inp : TailscaleInput) (routes : SameKeys ManagedRoute.key xs ys)
    (rules : SameKeys ManagedRule.key us vs) :
    SameKeys ManagedRoute.key (besideTailscale xs us inp).1 (besideTailscale ys vs inp).1 ∧
      SameKeys ManagedRule.key (besideTailscale xs us inp).2 (besideTailscale ys vs inp).2 := by
  have kept : SameKeys ManagedRoute.key (xs.filter fun r => ¬ r.route.table = bypassTable)
      (ys.filter fun r => ¬ r.route.table = bypassTable) :=
    routes.filter (fun k => ¬ k.dst.table = bypassTable) fun _ => rfl
  have mains : SameKeys ManagedRoute.key ((xs.filter fun r => ¬ r.route.table = bypassTable).filter
        fun r => r.route.table = "")
      ((ys.filter fun r => ¬ r.route.table = bypassTable).filter fun r => r.route.table = "") :=
    kept.filter (fun k => k.dst.table = "") fun _ => rfl
  have keptRules := rules.filter (fun k => decide ¬ (k.table = bypassTable ∨
      k.priority = tailscaleRulePrio ∧ k.table ≠ "")) fun _ => rfl
  have lookups := fun added : List ManagedRule =>
    keptRules.append (show SameKeys ManagedRule.key added added from
      fun _ => Iff.rfl)
  unfold besideTailscale
  split
  · exact ⟨kept, keptRules⟩
  · split
    · exact ⟨kept, lookups _⟩
    · refine ⟨kept.append (mains.map (fun k =>
        { k with dst := { k.dst with table := bypassTable } }) key_bypassCopy), ?_⟩
      dsimp only
      rw [familyRules_congr bypassRulePrio "from all" bypassTable inp (mem_families_iff mains)]
      exact (lookups _).append fun _ => Iff.rfl

end Identities

/-! ### The whole set -/

section Whole

variable {inp : DesiredInput} {ps : List Profile} {ls : String → List String}

theorem contributions_sameKeys {α κ : Type} [DecidableEq κ] {key : α → κ}
    {f g : Profile → List α} (same : SameEnabled inp ps ls)
    (agree : ∀ p ∈ ps, p.enabled → g p = f p)
    (off : ∀ p : Profile, ¬ p.enabled → f p = [] ∧ g p = []) :
    SameKeys key (((sortProfiles inp.profiles).flatMap f).foldl (addNew key) [])
      (((sortProfiles ps).flatMap g).foldl (addNew key) []) := by
  apply SameKeys.grow fun _ => Iff.rfl
  apply SameKeys.of_mem_iff
  intro a
  simp only [mem_flatMap, mem_sortProfiles]
  constructor
  · rintro ⟨p, member, within⟩
    by_cases enabled : p.enabled
    · have other := (same.members p enabled).mp member
      exact ⟨p, other, by rwa [agree p other enabled]⟩
    · rw [(off p enabled).1] at within
      simp at within
  · rintro ⟨p, member, within⟩
    by_cases enabled : p.enabled
    · exact ⟨p, (same.members p enabled).mpr member, by rwa [← agree p member enabled]⟩
    · rw [(off p enabled).2] at within
      simp at within

theorem turns_congr (same : SameEnabled inp ps ls) {tunnels : TunnelPlan}
    {b : Build} (looped : (sortProfiles inp.profiles).foldlM
      (buildProfile inp tunnels) {} = .ok b) :
    ∃ b', (sortProfiles ps).foldlM (buildProfile (inp.withProfiles ps ls) tunnels) {} = .ok b' := by
  apply foldlM_ends
  · intro s other p after stepped
    exact buildProfile_anywhere stepped other
  · intro p member
    rw [mem_sortProfiles] at member
    by_cases enabled : p.enabled
    · obtain ⟨s, after, stepped⟩ := foldlM_step looped
        (mem_sortProfiles.mpr ((same.members p enabled).mpr member))
      have agree := same.lists p member enabled
      exact ⟨s, after, (buildProfile_withProfiles agree s).trans stepped⟩
    · exact ⟨{}, {}, if_pos (.inl enabled)⟩

theorem familiesNoted_of_turns {tunnels : TunnelPlan} {b : Build}
    (looped : (sortProfiles inp.profiles).foldlM
      (buildProfile inp tunnels) {} = .ok b) : FamiliesNoted inp b := by
  apply foldlM_invariant (FamiliesNoted inp) ?_ ?_ looped
  · exact fun _ _ _ stepped held => held.buildProfile stepped
  · simp [FamiliesNoted]

theorem tableDefaults_ok {fams : List Family} {start last : List ManagedRoute}
    (ended : fams.foldlM (tableDefault inp) start = .ok last) :
    last = (fams.flatMap fun fam => [tableRoute inp fam]).foldl addRoute start :=
  foldlM_output id addRoute (fun fam => [tableRoute inp fam])
    (fun _ _ _ stepped => (tableDefault_ok_iff.mp stepped).2) ended

theorem defaults_congr {fams : List Family} {first second : List ManagedRoute}
    (same : SameKeys ManagedRoute.key first second)
    {placed : List ManagedRoute}
    (defaults : fams.foldlM (tableDefault inp) first = .ok placed) :
    ∃ placed', fams.foldlM (tableDefault (inp.withProfiles ps ls)) second =
        .ok placed' ∧ SameKeys ManagedRoute.key placed placed' := by
  obtain ⟨placed', again⟩ : ∃ placed', fams.foldlM (tableDefault (inp.withProfiles ps ls)) second =
        .ok placed' := by
    apply foldlM_ends
    · intro s other fam after stepped
      exact ⟨_, tableDefault_ok_iff.mpr ⟨(tableDefault_ok_iff.mp stepped).1, rfl⟩⟩
    · intro fam member
      exact foldlM_step defaults member
  refine ⟨placed', again, ?_⟩
  rw [tableDefaults_ok defaults, tableDefaults_ok again]
  exact same.grow fun _ => Iff.rfl

theorem buildDesired_congr (same : SameEnabled inp ps ls)
    {routes : List ManagedRoute} {rules : List ManagedRule}
    (built : buildDesired inp = .ok (routes, rules)) :
    ∃ routes' rules', buildDesired (inp.withProfiles ps ls) = .ok (routes', rules') ∧
        SameKeys ManagedRoute.key routes routes' ∧
        SameKeys ManagedRule.key rules rules' := by
  obtain ⟨b, placed, looped, defaults, rfl, rfl⟩ := buildDesired_stages.mp built
  obtain ⟨b', again⟩ := turns_congr same looped
  have routes : SameKeys ManagedRoute.key b.routes b'.routes := by
    rw [routes_of_turns looped, routes_of_turns again]
    apply contributions_sameKeys same
    · intro p member enabled
      exact profileRoutes_withProfiles (same.lists p member enabled)
    · intro p off
      simp [profileRoutes, Profile.excludes, off]
  have rules : SameKeys ManagedRule.key b.rules b'.rules := by
    rw [rules_of_turns looped, rules_of_turns again]
    apply contributions_sameKeys same
    · intro p member enabled
      exact profileRules_withProfiles (same.lists p member enabled)
    · intro p off
      simp [profileRules, Profile.includes, off]
  have noted : ∀ fam, fam ∈ b.includeFamilies ↔ fam ∈ b'.includeFamilies := by
    intro fam
    have byKey : ∀ rs : List ManagedRule, (rs.map fun r => r.key.family) =
        (rs.map ManagedRule.key).map RuleKey.family := by
      intro rs
      rw [map_map]
      rfl
    rw [familiesNoted_of_turns looped fam, familiesNoted_of_turns again fam,
      byKey, byKey, mem_map, mem_map]
    exact and_congr_right fun _ =>
      exists_congr fun k => and_congr_left fun _ => rules k
  have fams : families.filter (· ∈ b.includeFamilies) = families.filter (· ∈ b'.includeFamilies) :=
    filter_congr fun fam _ => decide_eq_decide.mpr (noted fam)
  rw [fams] at defaults
  obtain ⟨placed', defaults', placedKeys⟩ :=
    defaults_congr (place_sameKeys (planTunnels inp) routes) defaults
  obtain ⟨routeKeys, ruleKeys⟩ := besideTailscale_sameKeys inp.toTailscaleInput placedKeys rules
  refine ⟨_, _, buildDesired_stages.mpr ⟨b', placed', again, defaults', rfl, rfl⟩, ?_, ?_⟩
  · intro k
    simp only [sortRoutes, mem_map, mem_insertionSort]
    have keys := routeKeys k
    simp only [mem_map] at keys
    exact keys
  · intro k
    simp only [sortRules, mem_map, mem_insertionSort]
    have keys := ruleKeys k
    simp only [mem_map] at keys
    exact keys

end Whole

end RiftRoute
