/-
Module: RiftRoute.Api.ConfigApply
Purpose: A configuration file sent to the daemon.  A dry run plans from the
  file's profiles; otherwise they are saved, refusals only logged, and what the
  stores then hold is applied.  When the two plans are the same.
Trusted boundary: human-reviewed spec
Main exports: planApply, handleConfig
-/
import RiftRoute.Config.Validate
import RiftRoute.Core.Service
import RiftRoute.Safety.Protocol
import RiftRoute.Routing.SameProfiles

namespace RiftRoute

/-! ### The handler -/

/-- What the daemon keeps: the stored profiles and lists, the ownership map,
and the routes it stopped putting back for now. -/
structure Stores where
  profiles : ProfileStore
  lists : ListStore := .empty
  owned : List ManagedRoute := []
  held : RouteKey → Bool := fun _ => false

/-- The plan from what is there to a desired set. -/
def planApply (n : Network) (st : Stores) (routes : List ManagedRoute)
    (rules : List ManagedRule) : Plan :=
  reconcile routes (verifyRoutes routes n.listRoutes st.held (fun _ => true) st.owned).kept
    rules (actualManagedRules n.listRules) n.platform

/-- Save a file's profiles and lists. -/
def saveConfig (st : Stores) (c : ConfigFile) : Stores :=
  { st with
    profiles := c.domainProfiles.foldl saveProfile st.profiles
    lists := c.domainLists.foldl upsertList st.lists }

def previewSet (n : Network) (st : Stores) (c : ConfigFile) : DesiredSet :=
  desiredFromProfiles n (listLists st.lists) st.owned c.domainProfiles

def applySet (n : Network) (st : Stores) : DesiredSet :=
  desiredForApply n (listLists st.lists) st.owned (listProfiles st.profiles)

inductive ConfigOutcome where
  /-- The file does not pass the checks. -/
  | invalid (issues : List Issue)
  /-- A dry run whose desired set cannot be built. -/
  | notBuilt (err : String)
  | previewed (plan : Plan)
  /-- The file is saved, but nothing was applied. -/
  | applyError (err : String)
  /-- The desired set handed to the Apply Protocol, and the plan it runs. -/
  | applied (routes : List ManagedRoute) (rules : List ManagedRule)
      (plan : Plan)

def handleConfig (f : Formats) (n : Network) (st : Stores) (c : ConfigFile)
    (dryRun : Bool) : ConfigOutcome × Stores :=
  if ¬ c.Valid f n.platform then
    (.invalid (validate f c n.platform), st)
  else if dryRun then
    match (previewSet n st c).built with
    | .error err => (.notBuilt err, st)
    | .ok (routes, rules) => (.previewed (planApply n st routes rules), st)
  else
    let saved := saveConfig st c
    match (applySet n saved).built with
    | .error err => (.applyError err, saved)
    | .ok (routes, rules) =>
      (.applied routes rules (planApply n saved routes rules), saved)

/-! ### What is stored -/

section

variable {f : Formats} {n : Network} {st : Stores} {c : ConfigFile} (valid : c.Valid f n.platform)

include valid

theorem stores_handleConfig :
    (handleConfig f n st c false).2 = saveConfig st c := by
  unfold handleConfig
  rw [if_neg (not_not.mpr valid), if_neg (by simp)]
  dsimp only
  split <;> rfl

theorem built_of_applied {routes : List ManagedRoute} {rules : List ManagedRule} {plan : Plan}
    (ended : (handleConfig f n st c false).1 = .applied routes rules plan) :
    (applySet n (saveConfig st c)).built = .ok (routes, rules) := by
  unfold handleConfig at ended
  rw [if_neg (not_not.mpr valid), if_neg (by simp)] at ended
  dsimp only at ended
  split at ended
  case h_1 => cases ended
  rename_i built
  obtain ⟨rfl, rfl, rfl⟩ := ConfigOutcome.applied.inj ended
  exact built

end

/-- Each of the file's profiles is stored as the file has it, and what is
applied is built from the stored profiles.  The first holds in just those
cases where every stored profile that carries one of the file's names is
replaced by the file, and before the profile of that name is saved. -/
theorem config_applied_iff (f : Formats) (n : Network) (st : Stores)
    (c : ConfigFile) (valid : c.Valid f n.platform) :
    ((∀ p ∈ c.domainProfiles, (handleConfig f n st c false).2.profiles.find p.id = some p) ↔
      (c.domainProfiles.Pairwise fun p q =>
        ∀ r ∈ st.profiles.rows, r.id = q.id → r.name ≠ p.name) ∧
      ∀ p ∈ c.domainProfiles, ∀ r ∈ st.profiles.rows, r.name = p.name →
        r.id ∈ c.domainProfiles.map Profile.id) ∧
    ∀ routes rules plan, (handleConfig f n st c false).1 = .applied routes rules plan →
        (applySet n (handleConfig f n st c false).2).built = .ok (routes, rules) := by
  rw [stores_handleConfig valid]
  exact ⟨UniqueTable.saved_iff (ids_nodup_of_valid valid)
    (names_nodup_of_valid valid), fun _ _ _ ended =>
      built_of_applied valid ended⟩

namespace GuiBeside

/-- Any duration and any URL is taken. -/
def anyFormats : Formats where
  duration _ := true
  httpsURL _ := true

def network : Network where
  platform := "linux"
  defaultGateway _ := some (.v4 0xc0a80101, "eth0")

def file : ConfigFile where
  profiles :=
    [{ name := "office", enabled := true
       rules := [{ type := "cidr", value := "203.0.113.0/24" }] }]

/-- An earlier file's profile of that name, and one made in the GUI. -/
def fromFile : Stores where
  profiles :=
    { rows := [{ id := "cfg:office", name := "office" },
        { id := "p-1", name := "home" }]
      nodup := by decide
      marks := by decide }

/-- The name belongs to a profile made in the GUI. -/
def fromGUI : Stores where
  profiles :=
    { rows := [{ id := "p-1", name := "office" }]
      nodup := by decide
      marks := by decide }

end GuiBeside

section

open GuiBeside

theorem office_saved_and_applied : file.Valid anyFormats network.platform ∧
      ∀ p ∈ file.domainProfiles,
        (handleConfig anyFormats network fromFile file false).2.profiles.find p.id = some p :=
  ⟨by decide, (config_applied_iff anyFormats network fromFile file (by decide)).1.mpr (by decide)⟩

/-- The file's profile is refused for its name, nothing of it is stored, and
the handler goes on to apply the stored profile. -/
theorem office_not_saved : file.Valid anyFormats network.platform ∧
      (handleConfig anyFormats network fromGUI file false).2.profiles.rows = fromGUI.profiles.rows ∧
      (∃ plan, (handleConfig anyFormats network fromGUI file false).1 = .applied [] [] plan) := by
  refine ⟨by decide, by decide, _, rfl⟩

end

open List

/-- The plan a request shows or runs. -/
def ConfigOutcome.plan : ConfigOutcome → Option Plan
  | .previewed plan => some plan
  | .applied _ _ plan => some plan
  | _ => none

/-- The file takes the place of what is stored. -/
structure TakesOver (st : Stores) (c : ConfigFile) : Prop where
  /-- No name is stored under a later profile's id. -/
  inTurn : c.domainProfiles.Pairwise fun p q =>
    ∀ r ∈ st.profiles.rows, r.id = q.id → r.name ≠ p.name
  /-- A stored profile with one of the file's names, or an enabled one, is
  replaced. -/
  replaces : ∀ r ∈ st.profiles.rows, r.enabled ∨ r.name ∈ c.domainProfiles.map Profile.name →
      r.id ∈ c.domainProfiles.map Profile.id
  /-- The lists the enabled profiles name have the file's entries already. -/
  lists : ∀ p ∈ c.domainProfiles, p.enabled → ∀ lc ∈ c.lists,
    lc.name ∈ p.lists → listsMap (listLists st.lists) lc.name = lc.static

instance (st : Stores) (c : ConfigFile) : Decidable (TakesOver st c) :=
  decidable_of_iff ((c.domainProfiles.Pairwise fun p q =>
        ∀ r ∈ st.profiles.rows, r.id = q.id → r.name ≠ p.name) ∧
      (∀ r ∈ st.profiles.rows, r.enabled ∨ r.name ∈ c.domainProfiles.map Profile.name →
          r.id ∈ c.domainProfiles.map Profile.id) ∧
      ∀ p ∈ c.domainProfiles, p.enabled → ∀ lc ∈ c.lists,
        lc.name ∈ p.lists → listsMap (listLists st.lists) lc.name = lc.static)
    ⟨fun ⟨inTurn, replaces, lists⟩ => ⟨inTurn, replaces, lists⟩,
      fun takesOver => ⟨takesOver.inTurn, takesOver.replaces, takesOver.lists⟩⟩

/-! ### What the stores hold after the saves -/

section Saved

variable {f : Formats} {platform : String} {st : Stores} {c : ConfigFile}

theorem find_saveConfig (valid : c.Valid f platform) (takesOver : TakesOver st c)
    {p : Profile} (member : p ∈ c.domainProfiles) :
    (saveConfig st c).profiles.find p.id = some p := by
  apply (UniqueTable.saved_iff (ids_nodup_of_valid valid)
    (names_nodup_of_valid valid)).mpr ⟨takesOver.inTurn, ?_⟩ p member
  intro q qMember r stored same
  apply takesOver.replaces r stored
  rw [same]
  exact .inr (mem_map_of_mem qMember)

theorem mem_saveConfig_iff (valid : c.Valid f platform)
    (takesOver : TakesOver st c) {p : Profile} (enabled : p.enabled) :
    p ∈ c.domainProfiles ↔ p ∈ listProfiles (saveConfig st c).profiles := by
  rw [mem_listProfiles]
  constructor
  · intro member
    exact KeyedTable.mem_of_find (find_saveConfig valid takesOver member)
  · intro stored
    have found := KeyedTable.find_of_mem stored
    have listed : p.id ∈ c.domainProfiles.map Profile.id := by
      by_contra absent
      have before : st.profiles.find p.id = some p := by
        rw [← found]
        exact (UniqueTable.find_foldl_save_of_not_mem absent).symm
      exact absent (takesOver.replaces p (KeyedTable.mem_of_find before) (.inl enabled))
    obtain ⟨q, member, same⟩ := mem_map.mp listed
    rw [← same, find_saveConfig valid takesOver member] at found
    exact Option.some.inj found ▸ member

theorem listsMap_listLists (s : ListStore) (name : String) : listsMap (listLists s) name =
      ((s.find name).map NamedList.entries).getD [] := by
  have distinct : ((listLists s).map NamedList.name).Nodup :=
    ((perm_insertionSort _ s.rows).map NamedList.name).nodup_iff.mpr s.nodup
  have members : ∀ l, l ∈ listLists s ↔ l ∈ s.rows := fun l => mem_insertionSort _
  have found : (listLists s).find? (·.name = name) = s.find name := by
    cases stored : s.find name with
    | none =>
      rw [find?_eq_none]
      intro l member
      simpa using KeyedTable.find_eq_none_iff.mp stored l ((members l).mp member)
    | some l =>
      obtain rfl := KeyedTable.key_of_find stored
      exact KeyedTable.find_of_mem (show l ∈ (⟨listLists s, distinct⟩ : ListStore).rows from
          (members l).mpr (KeyedTable.mem_of_find stored))
  rw [listsMap, found]

theorem listsMap_saveConfig (valid : c.Valid f platform) {lc : ListConfig} (member : lc ∈ c.lists) :
    listsMap (listLists (saveConfig st c).lists) lc.name = lc.static := by
  have found : (saveConfig st c).lists.find lc.name = some lc.toList :=
    KeyedTable.find_foldl_put (list_names_nodup_of_valid valid) (mem_map_of_mem member)
  rw [listsMap_listLists, found]
  simp [NamedList.entries, ListConfig.toList]

end Saved

/-! ### The two inputs -/

section Inputs

variable {n : Network} {lists others : List NamedList}
  {owned : List ManagedRoute} {ps qs : List Profile}

theorem names_congr (same : ∀ p : Profile, p.enabled → (p ∈ ps ↔ p ∈ qs))
    (value : String) : names ps value = names qs value := by
  rw [Bool.eq_iff_iff, names, names, any_eq_true, any_eq_true]
  constructor
  · rintro ⟨p, member, held⟩
    have enabled : p.enabled := (of_decide_eq_true held).1
    exact ⟨p, (same p enabled).mp member, held⟩
  · rintro ⟨p, member, held⟩
    have enabled : p.enabled := (of_decide_eq_true held).1
    exact ⟨p, (same p enabled).mpr member, held⟩

theorem profileNetwork_withProfiles (same : ∀ p : Profile, p.enabled → (p ∈ ps ↔ p ∈ qs)) :
    profileNetwork n others owned qs =
      (profileNetwork n lists owned ps).withProfiles qs (listsMap others) := by
  have domains : lookupDomains n.resolver ps = lookupDomains n.resolver qs := by
    funext value
    rw [lookupDomains, lookupDomains, names_congr same]
  unfold profileNetwork DesiredInput.withProfiles
  rw [domains]

theorem tunnelProfileRoutes_congr {inp : DesiredInput}
    {ls : String → List String} (same : SameEnabled inp qs ls) :
    tunnelProfileRoutes (inp.withProfiles qs ls) = tunnelProfileRoutes inp := by
  funext tunnel
  unfold tunnelProfileRoutes
  congr 1
  apply aggregate_congr
  apply Netip.covered_iff_of_mem_iff
  intro pfx
  simp only [tunnelPrefixes, mem_flatMap, mem_filter, decide_eq_true_eq]
  constructor
  · rintro ⟨p, ⟨member, goes⟩, fam, listed, within⟩
    rw [profilePrefixes_withProfiles (same.lists p member goes.1)] at within
    exact ⟨p, ⟨(same.members p goes.1).mpr member, goes⟩, fam, listed, within⟩
  · rintro ⟨p, ⟨member, goes⟩, fam, listed, within⟩
    have other := (same.members p goes.1).mp member
    rw [← profilePrefixes_withProfiles (same.lists p other goes.1)] at within
    exact ⟨p, ⟨other, goes⟩, fam, listed, within⟩

theorem profileInput_withProfiles (same : SameEnabled (profileNetwork n lists owned ps) qs
      (listsMap others)) :
    profileInput n others owned qs =
      (profileInput n lists owned ps).withProfiles qs (listsMap others) := by
  have network : profileNetwork n others owned qs =
      (profileNetwork n lists owned ps).withProfiles qs (listsMap others) :=
    profileNetwork_withProfiles same.members
  unfold profileInput
  dsimp only
  rw [network, tunnelProfileRoutes_congr same]
  rfl

theorem desiredFromProfiles_congr (same : SameEnabled (profileNetwork n lists owned ps) qs
      (listsMap others))
    {routes : List ManagedRoute} {rules : List ManagedRule}
    (built : (desiredFromProfiles n lists owned ps).built = .ok (routes, rules)) :
    ∃ routes' rules', (desiredFromProfiles n others owned qs).built = .ok (routes', rules') ∧
      SameKeys ManagedRoute.key routes routes' ∧
      SameKeys ManagedRule.key rules rules' := by
  have input : SameEnabled (profileInput n lists owned ps) qs
      (listsMap others) := ⟨same.members, same.lists⟩
  obtain ⟨routes', rules', again, keys⟩ := buildDesired_congr input built
  refine ⟨routes', rules', ?_, keys⟩
  change buildDesired (profileInput n others owned qs) = _
  rw [profileInput_withProfiles same]
  exact again

end Inputs

/-! ### The two requests -/

section Requests

variable {f : Formats} {n : Network} {st : Stores} {c : ConfigFile}

theorem plan_dryRun (valid : c.Valid f n.platform) {plan : Plan} :
    (handleConfig f n st c true).1.plan = some plan ↔
      ∃ routes rules, (previewSet n st c).built = .ok (routes, rules) ∧
        planApply n st routes rules = plan := by
  unfold handleConfig
  rw [if_neg (not_not.mpr valid), if_pos rfl]
  cases (previewSet n st c).built with
  | error err => simp [ConfigOutcome.plan]
  | ok set =>
    obtain ⟨routes, rules⟩ := set
    simp [ConfigOutcome.plan]

theorem plan_apply (valid : c.Valid f n.platform) {plan : Plan} :
    (handleConfig f n st c false).1.plan = some plan ↔ ∃ routes rules,
        (applySet n (saveConfig st c)).built = .ok (routes, rules) ∧
          planApply n st routes rules = plan := by
  unfold handleConfig
  rw [if_neg (not_not.mpr valid), if_neg (by simp)]
  dsimp only
  cases (applySet n (saveConfig st c)).built with
  | error err => simp [ConfigOutcome.plan]
  | ok set =>
    obtain ⟨routes, rules⟩ := set
    simp [ConfigOutcome.plan, planApply, saveConfig]

theorem sameEnabled_saved (valid : c.Valid f n.platform) (takesOver : TakesOver st c) :
    SameEnabled (profileNetwork n (listLists st.lists) st.owned
        c.domainProfiles) (listProfiles (saveConfig st c).profiles)
      (listsMap (listLists (saveConfig st c).lists)) where
  members _ enabled := mem_saveConfig_iff valid takesOver enabled
  lists p stored enabled l named := by
    have member := (mem_saveConfig_iff valid takesOver enabled).mpr stored
    obtain ⟨lc, listed, rfl⟩ := list_known_of_valid valid member named
    rw [listsMap_saveConfig valid listed]
    exact (takesOver.lists p member enabled lc listed named).symm

theorem planApply_requests {routes routes' : List ManagedRoute} {rules rules' : List ManagedRule}
    (routeKeys : SameKeys ManagedRoute.key routes routes')
    (ruleKeys : SameKeys ManagedRule.key rules rules') (r : Request) :
    r ∈ (planApply n st routes rules).requests ↔ r ∈ (planApply n st routes' rules').requests := by
  unfold planApply
  rw [kept_congr routeKeys]
  exact requests_congr routeKeys ruleKeys r

end Requests

/-- Where the file takes the place of what is stored, its dry run shows a plan
just when its apply has one to run, and the two ask for the same. -/
theorem dry_run_previews (f : Formats) (n : Network) (st : Stores)
    (c : ConfigFile) (valid : c.Valid f n.platform) (takesOver : TakesOver st c) :
    (∀ preview, (handleConfig f n st c true).1.plan = some preview →
      ∃ executed, (handleConfig f n st c false).1.plan = some executed ∧
        ∀ r, r ∈ preview.requests ↔ r ∈ executed.requests) ∧
    ∀ executed, (handleConfig f n st c false).1.plan = some executed →
      ∃ preview, (handleConfig f n st c true).1.plan = some preview ∧
        ∀ r, r ∈ executed.requests ↔ r ∈ preview.requests := by
  have same := sameEnabled_saved valid takesOver
  have back : SameEnabled (profileNetwork n (listLists (saveConfig st c).lists) st.owned
      (listProfiles (saveConfig st c).profiles)) c.domainProfiles
      (listsMap (listLists st.lists)) := by
    rw [profileNetwork_withProfiles same.members]
    exact same.symm
  constructor
  · intro preview shown
    obtain ⟨routes, rules, built, rfl⟩ := (plan_dryRun valid).mp shown
    obtain ⟨routes', rules', again, routeKeys, ruleKeys⟩ := desiredFromProfiles_congr same built
    exact ⟨_, (plan_apply valid).mpr ⟨routes', rules', again, rfl⟩,
      planApply_requests routeKeys ruleKeys⟩
  · intro executed ran
    obtain ⟨routes, rules, built, rfl⟩ := (plan_apply valid).mp ran
    obtain ⟨routes', rules', again, routeKeys, ruleKeys⟩ := desiredFromProfiles_congr back built
    exact ⟨_, (plan_dryRun valid).mpr ⟨routes', rules', again, rfl⟩,
      planApply_requests routeKeys ruleKeys⟩

namespace StoredBeside

open GuiBeside (anyFormats network)

/-- One profile with a rule and a list. -/
def file : ConfigFile where
  profiles :=
    [{ name := "office", enabled := true, lists := ["corp"]
       rules := [{ type := "cidr", value := "203.0.113.0/24" }] }]
  lists := [{ name := "corp", static := ["198.51.100.0/24"] }]

def corp : ListStore where
  rows := [{ name := "corp", static := ["198.51.100.0/24"] }]
  nodup := by decide

/-- An earlier version of the file was applied. -/
def earlier : Stores where
  profiles :=
    { rows := [{ id := "cfg:office", name := "office" }]
      nodup := by decide
      marks := by decide }
  lists := corp

/-- An enabled profile the file does not have. -/
def home : Stores where
  profiles :=
    { rows := [{ id := "p-1", name := "home"
                 rules := [{ type := .cidr, value := "192.0.2.0/24" }] }]
      nodup := by decide
      marks := by decide }
  lists := corp

def noList : Stores where
  profiles := { rows := [], nodup := by decide, marks := by decide }

def sameName : Stores where
  profiles :=
    { rows := [{ id := "p-1", name := "office", enabled := false }]
      nodup := by decide
      marks := by decide }
  lists := corp

/-- What the dry run shows. -/
def shown (st : Stores) : Option (List Request) :=
  (handleConfig anyFormats network st file true).1.plan.map Plan.requests

/-- What the apply runs. -/
def ran (st : Stores) : Option (List Request) :=
  (handleConfig anyFormats network st file false).1.plan.map Plan.requests

def add (dst : String) : Request :=
  .addRoute { dst := { family := .v4, table := "", dst := dst }
              gateway := "192.168.1.1", iface := "eth0", reject := false }

end StoredBeside

open StoredBeside

theorem earlier_file_previewed : ∃ preview executed,
      (handleConfig GuiBeside.anyFormats GuiBeside.network earlier file
        true).1.plan = some preview ∧
      (handleConfig GuiBeside.anyFormats GuiBeside.network earlier file
        false).1.plan = some executed ∧
      preview.requests ≠ [] ∧
      ∀ r, r ∈ preview.requests ↔ r ∈ executed.requests := by
  obtain ⟨preview, shows, some⟩ : ∃ preview,
      (handleConfig GuiBeside.anyFormats GuiBeside.network earlier file
        true).1.plan = some preview ∧ preview.requests ≠ [] :=
    ⟨_, rfl, by decide +kernel⟩
  obtain ⟨executed, runs, same⟩ := (dry_run_previews GuiBeside.anyFormats
    GuiBeside.network earlier file (by decide +kernel) (by decide +kernel)).1 preview shows
  exact ⟨preview, executed, shows, runs, some, same⟩

/-- The dry run leaves out a profile that stays enabled, reads a list as it was
before the save, and shows a profile that will be refused for its name. -/
theorem previews_differ : file.Valid GuiBeside.anyFormats GuiBeside.network.platform ∧
      (shown home = some [add "198.51.100.0/24", add "203.0.113.0/24"] ∧
        ran home = some [add "192.0.2.0/24", add "198.51.100.0/24", add "203.0.113.0/24"]) ∧
      (shown noList = some [add "203.0.113.0/24"] ∧
        ran noList = some [add "198.51.100.0/24", add "203.0.113.0/24"]) ∧
      (shown sameName = some [add "198.51.100.0/24", add "203.0.113.0/24"] ∧
        ran sameName = some []) := by
  decide +kernel

end RiftRoute
