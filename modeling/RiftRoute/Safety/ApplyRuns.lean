/-
Module: RiftRoute.Safety.ApplyRuns
Purpose: What an apply records, and leaves in the kernel, when rollbacks of
  earlier transactions run beside it.
Trusted boundary: none
Main exports: plans, reconcile_installs_desired
-/
import RiftRoute.Safety.Protocol

namespace RiftRoute

open List

variable {M : Matching} {platform : String}

/-! ### Recording a plan -/

def OwnKey.mainDst (row : OwnKey) : DstKey := { family := row.family, table := "", dst := row.dst }

theorem mainDst_ownKey {r : ManagedRoute} (main : r.route.table = "") :
    (ownKey r).mainDst = r.dst := by
  simp [OwnKey.mainDst, ownKey, ManagedRoute.dst, dstKey, main]

section Recording

variable {desired actual : List ManagedRoute}
  {desiredRules actualRules : List ManagedRule}

theorem reconcile_opsAt (nodup : (actual.map ManagedRoute.key).Nodup)
    (mainDesired : ∀ r ∈ desired, r.route.table = "")
    (mainActual : ∀ r ∈ actual, r.route.table = "") (row : OwnKey) :
    ownershipCells.opsAt row (effects
      (reconcile desired actual desiredRules actualRules platform).ops) =
      (((oldsAt desired actual row.mainDst).filter fun r => ownKey r = row).map .delRoute ++
        ((newsAt desired actual row.mainDst).filter fun r => ownKey r = row).map .addRoute) := by
  have within : ∀ e ∈ effects (reconcile desired actual desiredRules actualRules platform).ops,
      e.row = some row → e.dst = some row.mainDst := by
    intro e member atRow
    cases e with
    | addRoute d =>
      have inDesired := (addRoute_mem_reconcile nodup).mp member
      obtain rfl := Option.some.inj atRow
      rw [mainDst_ownKey (mainDesired d inDesired.1)]
      rfl
    | delRoute a =>
      have inActual := (delRoute_mem_reconcile nodup).mp member
      obtain rfl := Option.some.inj atRow
      rw [mainDst_ownKey (mainActual a inActual.1)]
      rfl
    | addRule | delRule => cases atRow
  have narrowed : ownershipCells.opsAt row (effects
        (reconcile desired actual desiredRules actualRules platform).ops) =
      ownershipCells.opsAt row (effectsAt row.mainDst (effects
        (reconcile desired actual desiredRules actualRules platform).ops)) := by
    unfold CellSystem.opsAt effectsAt
    rw [filter_filter]
    apply filter_congr
    intro e member
    by_cases atRow : e.row = some row
    · simp [ownershipCells, atRow, within e member atRow]
    · simp [ownershipCells, atRow]
  rw [narrowed, reconcile_effectsAt nodup, CellSystem.opsAt_append]
  simp [CellSystem.opsAt, ownershipCells, filter_map, Function.comp_def,
    Effect.row, Effect.route]

theorem eq_of_ownKey_eq (one : OnePerDst desired)
    (mainDesired : ∀ r ∈ desired, r.route.table = "") {d d' : ManagedRoute}
    (inDesired : d ∈ desired) (inDesired' : d' ∈ desired)
    (sameRow : ownKey d' = ownKey d) : d' = d := by
  refine one.eq_of_dst inDesired' inDesired ?_
  rw [← mainDst_ownKey (mainDesired d' inDesired'), sameRow,
    mainDst_ownKey (mainDesired d inDesired)]

/-- The effect does not go against the desired set: a route it adds is desired,
and no desired route has the destination or the row it empties. -/
def Effect.Agrees (desired : List ManagedRoute) : Effect → Prop
  | .addRoute r => r.key ∈ desired.map ManagedRoute.key
  | .delRoute r => r.dst ∉ desired.map ManagedRoute.dst ∧ ownKey r ∉ desired.map ownKey
  | _ => True

instance (desired : List ManagedRoute) (e : Effect) : Decidable (e.Agrees desired) := by
  unfold Effect.Agrees
  split <;> infer_instance

variable {between : List Effect} {base : Ownership}

theorem desired_of_recorded (agrees : ∀ e ∈ between, e.Agrees desired) {r : ManagedRoute}
    (listed : (base.record between).docAt (ownKey r) = some r) :
    r.key ∈ desired.map ManagedRoute.key ∨ r ∈ base.listOwned := by
  rw [Ownership.docAt_record] at listed
  cases last : (ownershipCells.opsAt (ownKey r) between).getLast? with
  | none =>
    rw [last] at listed
    exact .inr (Ownership.mem_listOwned.mpr listed)
  | some e =>
    rw [last] at listed
    have member := mem_of_mem_filter (mem_of_getLast? last)
    cases e with
    | addRoute d =>
      obtain rfl := Option.some.inj listed
      exact .inl (agrees _ member)
    | delRoute | addRule | delRule => cases listed

theorem recorded_of_desired (one : OnePerDst desired)
    (mainDesired : ∀ r ∈ desired, r.route.table = "") (agrees : ∀ e ∈ between, e.Agrees desired)
    {d a : ManagedRoute} (inDesired : d ∈ desired) (sameKey : a.key = d.key)
    (held : base.docAt (ownKey d) = some a) :
    ∃ r, (base.record between).docAt (ownKey d) = some r ∧ r.key = d.key := by
  rw [Ownership.docAt_record]
  cases last : (ownershipCells.opsAt (ownKey d) between).getLast? with
  | none => exact ⟨a, held, sameKey⟩
  | some e =>
    obtain ⟨member, here⟩ := mem_filter.mp (mem_of_getLast? last)
    have atRow : e.row = some (ownKey d) := of_decide_eq_true here
    have agreed := agrees e member
    cases e with
    | addRoute r =>
      obtain ⟨d', inDesired', sameKey'⟩ := mem_map.mp agreed
      have sameRow : ownKey d' = ownKey d :=
        (ownKey_eq_of_key_eq sameKey').trans (Option.some.inj atRow)
      obtain rfl := eq_of_ownKey_eq one mainDesired inDesired inDesired' sameRow
      exact ⟨r, rfl, sameKey'.symm⟩
    | delRoute r =>
      have row : ownKey r = ownKey d := Option.some.inj atRow
      exact absurd (row ▸ mem_map_of_mem inDesired) agreed.2
    | addRule | delRule => cases atRow

theorem reconcile_records_desired (agrees : ∀ e ∈ between, e.Agrees desired)
    (sublist : actual.Sublist base.listOwned)
    (unwanted : ∀ r ∈ base.listOwned, r.key ∉ desired.map ManagedRoute.key → r ∈ actual)
    (one : OnePerDst desired) (mainDesired : ∀ r ∈ desired, r.route.table = "")
    (mainOwned : ∀ r ∈ base.listOwned, r.route.table = "") (key : RouteKey) :
    key ∈ ((base.record between).record (effects (reconcile desired actual
        desiredRules actualRules platform).ops)).listOwned.map ManagedRoute.key ↔
      key ∈ desired.map ManagedRoute.key := by
  have nodupRows : (actual.map ownKey).Nodup := (sublist.map ownKey).nodup base.nodup_listOwned
  have nodup : (actual.map ManagedRoute.key).Nodup := by
    refine List.Nodup.of_map RouteKey.ownKey ?_
    rw [map_map]
    exact nodupRows
  have mainActual : ∀ r ∈ actual, r.route.table = "" :=
    fun r member => mainOwned r (sublist.subset member)
  rw [mem_map, mem_map]
  constructor
  · rintro ⟨r, listed, rfl⟩
    rw [Ownership.mem_listOwned, Ownership.docAt_record] at listed
    cases last : (ownershipCells.opsAt (ownKey r) (effects (reconcile desired
        actual desiredRules actualRules platform).ops)).getLast? with
    | none =>
      -- an undesired record would have been forgotten
      rw [last] at listed
      refine mem_map.mp (by_contra fun undesired => ?_)
      have inBase := (desired_of_recorded agrees listed).resolve_left undesired
      have forgotten : .delRoute r ∈ effects (reconcile desired actual
          desiredRules actualRules platform).ops :=
        (delRoute_mem_reconcile nodup).mpr ⟨unwanted r inBase undesired, undesired⟩
      refine absurd (getLast?_eq_none_iff.mp last) (ne_nil_of_mem
        (mem_filter.mpr ⟨forgotten, ?_⟩))
      exact decide_eq_true rfl
    | some e =>
      rw [last] at listed
      have member := mem_of_mem_filter (mem_of_getLast? last)
      cases e with
      | addRoute d =>
        obtain rfl := Option.some.inj listed
        exact ⟨d, ((addRoute_mem_reconcile nodup).mp member).1, rfl⟩
      | delRoute | addRule | delRule => cases listed
  · rintro ⟨d, inDesired, rfl⟩
    by_cases present : d.key ∈ actual.map ManagedRoute.key
    · obtain ⟨a, inActual, sameKey⟩ := mem_map.mp present
      have sameRow : ownKey a = ownKey d := ownKey_eq_of_key_eq sameKey
      have held := Ownership.mem_listOwned.mp (sublist.subset inActual)
      rw [sameRow] at held
      obtain ⟨r, recorded, rKey⟩ := recorded_of_desired one mainDesired agrees
        inDesired sameKey held
      refine ⟨r, ?_, rKey⟩
      rw [Ownership.mem_listOwned, ownKey_eq_of_key_eq rKey, ← recorded]
      refine ownershipCells.view_run_of_untouched ?_
      intro e member atRow
      cases e with
      | addRoute d' =>
        obtain ⟨inDesired', absent⟩ := (addRoute_mem_reconcile nodup).mp member
        rw [eq_of_ownKey_eq one mainDesired inDesired inDesired' (Option.some.inj atRow)] at absent
        exact absent present
      | delRoute x =>
        obtain ⟨inActual', undesired⟩ := (delRoute_mem_reconcile nodup).mp member
        obtain rfl := inj_on_of_nodup_map nodupRows inActual' inActual
          ((Option.some.inj atRow).trans sameRow.symm)
        exact undesired (sameKey ▸ mem_map_of_mem inDesired)
      | addRule | delRule => cases atRow
    · refine ⟨d, ?_, rfl⟩
      have isNew : d ∈ newsAt desired actual d.dst := mem_newsAt.mpr ⟨inDesired, rfl, present⟩
      have news : newsAt desired actual d.dst = [d] :=
        one.filter_dst _ isNew fun other member => (mem_newsAt.mp member).2.1
      rw [Ownership.mem_listOwned, Ownership.docAt_record,
        reconcile_opsAt nodup mainDesired mainActual,
        mainDst_ownKey (mainDesired d inDesired), news]
      simp [Effect.rowAfter]

end Recording

/-! ### What a plan leaves in the kernel -/

section Installing

variable {desired owned actual : List ManagedRoute} {desiredRules actualRules rules : List ManagedRule}
  {k : Kernel} {between : List Effect} {dst : DstKey}

theorem oneEach_of_managedState (state : ManagedState k owned rules)
    (nodup : (owned.map ownKey).Nodup) : OnePerDst owned := by
  rw [List.Nodup, pairwise_map] at nodup
  rw [OnePerDst, List.Nodup, pairwise_map]
  refine nodup.imp_of_mem fun {r q} first second apart same => apart ?_
  have equal : installed r = installed q := Option.some.inj
    ((state.routes r first).symm.trans (same ▸ state.routes q second))
  have keys : r.key = q.key := by simpa using congrArg routeKey equal
  exact ownKey_eq_of_key_eq keys

/-- At a desired route's destination, effects that agree only add that route. -/
theorem find_agreed (agrees : ∀ e ∈ between, e.Agrees desired) (one : OnePerDst desired)
    {d : ManagedRoute} (inDesired : d ∈ desired) :
    (k.run M between).routes.find d.dst = k.routes.find d.dst ∨ k.routes.find d.dst = none ∧
      ∃ r : ManagedRoute, r.key = d.key ∧
        (k.run M between).routes.find d.dst = some (installed r) := by
  induction between generalizing k with
  | nil => exact .inl rfl
  | cons e rest ih =>
    obtain ⟨agreed, agrees⟩ := forall_mem_cons.mp agrees
    rw [Kernel.run_cons]
    have kept : (k.apply M e).routes.find d.dst = k.routes.find d.dst ∨
        k.routes.find d.dst = none ∧ ∃ r : ManagedRoute, r.key = d.key ∧
          (k.apply M e).routes.find d.dst = some (installed r) := by
      have acted := (routeCells M).view_step k e d.dst
      change (k.apply M e).routes.find d.dst = _ at acted
      rw [acted]
      by_cases here : e.dst = some d.dst
      · cases e with
        | addRule | delRule => cases here
        | delRoute r => exact absurd (Option.some.inj here ▸ mem_map_of_mem inDesired) agreed.1
        | addRoute r =>
          obtain ⟨d', inDesired', same⟩ := mem_map.mp agreed
          have sameDst : r.dst = d.dst := Option.some.inj here
          obtain rfl := one.eq_of_dst inDesired' inDesired
            ((ManagedRoute.dst_eq_of_key_eq same).trans sameDst)
          cases held : k.routes.find d'.dst with
          | none =>
            exact .inr ⟨rfl, r, same.symm, by
              simp [routeCells, Effect.dst, Effect.route, sameDst, Effect.slotOp, held]⟩
          | some entry =>
            exact .inl (by
              simp [routeCells, Effect.dst, Effect.route, sameDst, Effect.slotOp, held])
      · exact .inl (if_neg here)
    rcases kept with same | ⟨empty, r, sameKey, filled⟩
    · rw [← same]
      exact ih agrees
    · refine .inr ⟨empty, ?_⟩
      rcases ih (k := k.apply M e) agrees with same | ⟨none, _⟩
      · exact ⟨r, sameKey, same.trans filled⟩
      · rw [filled] at none
        cases none

/-- Where no route is desired, effects that agree only delete. -/
theorem find_agreed_undesired (agrees : ∀ e ∈ between, e.Agrees desired)
    (undesired : dst ∉ desired.map ManagedRoute.dst) {entry : Route}
    (found : (k.run M between).routes.find dst = some entry) :
    k.routes.find dst = some entry := by
  have deletes : ∀ e ∈ effectsAt dst between, ∃ r, e = .delRoute r := by
    intro e member
    obtain ⟨ran, here⟩ := mem_filter.mp member
    have here : e.dst = some dst := of_decide_eq_true here
    cases e with
    | addRule | delRule => cases here
    | delRoute r => exact ⟨r, rfl⟩
    | addRoute r =>
      obtain ⟨d, inDesired, same⟩ := mem_map.mp (agrees _ ran)
      have sameDst : r.dst = dst := Option.some.inj here
      refine absurd (mem_map.mpr ⟨d, inDesired, ?_⟩) undesired
      rw [ManagedRoute.dst_eq_of_key_eq same, sameDst]
  have shrinks : ∀ (es : List Effect) (slot : Option Route), (∀ e ∈ es, ∃ r, e = .delRoute r) →
      SlotOp.run slot (es.filterMap (Effect.slotOp M)) = some entry → slot = some entry := by
    intro es
    induction es with
    | nil => exact fun _ _ ran => ran
    | cons e rest ih =>
      intro slot deletes ran
      obtain ⟨⟨r, rfl⟩, later⟩ := forall_mem_cons.mp deletes
      exact (Option.filter_eq_some_iff.mp (ih _ later ran)).1
  rw [Kernel.find_run] at found
  exact shrinks _ _ deletes found

/-- A plan made from the recorded routes installs the desired ones and leaves no
other managed route, when what ran before it over the recorded state agrees. -/
theorem reconcile_installs_desired (state : ManagedState k owned rules)
    (nodupOwned : (owned.map ownKey).Nodup)
    (unoccupied : ∀ d ∈ desired, d.dst ∉ owned.map ManagedRoute.dst → k.routes.find d.dst = none)
    (agrees : ∀ e ∈ between, e.Agrees desired) (sublist : actual.Sublist owned)
    (unwanted : ∀ r ∈ owned, r.key ∉ desired.map ManagedRoute.key → r ∈ actual)
    (one : OnePerDst desired) :
    let reached := (k.run M between).run M (effects (reconcile desired actual desiredRules
      actualRules platform).ops)
    (∀ d ∈ desired, ∃ r : ManagedRoute, r.key = d.key ∧
      reached.routes.find d.dst = some (installed r)) ∧
    ∀ dst entry, reached.routes.find dst = some entry → entry.owner = .riftRoute →
      dst ∈ desired.map ManagedRoute.dst := by
  intro reached
  have oneOwned := oneEach_of_managedState state nodupOwned
  have oneActual : OnePerDst actual := (sublist.map _).nodup oneOwned
  have oldsOf : ∀ {dst o}, o ∈ oldsAt desired actual dst → o ∈ owned ∧ o.dst = dst ∧
      o.key ∉ desired.map ManagedRoute.key := by
    intro dst o old
    obtain ⟨member, here, gone⟩ := mem_oldsAt.mp old
    exact ⟨sublist.subset member, here, gone⟩
  constructor
  · intro d inDesired
    have after : reached.routes.find d.dst = _ := find_after_plan oneActual d.dst
    rw [after]
    by_cases there : d.dst ∈ owned.map ManagedRoute.dst
    · obtain ⟨a, inOwned, here⟩ := mem_map.mp there
      have held : k.routes.find d.dst = some (installed a) := here ▸ state.routes a inOwned
      have slot : (k.run M between).routes.find d.dst = some (installed a) := by
        rcases find_agreed (M := M) agrees one inDesired with same | ⟨empty, _⟩
        · exact same.trans held
        · rw [held] at empty
          cases empty
      rw [slot]
      by_cases sameKey : a.key = d.key
      · have noOlds : oldsAt desired actual d.dst = [] := by
          refine eq_nil_iff_forall_not_mem.mpr fun o old => ?_
          obtain ⟨member, oHere, gone⟩ := oldsOf old
          obtain rfl := oneOwned.eq_of_dst member inOwned (oHere.trans here.symm)
          exact gone (sameKey ▸ mem_map_of_mem inDesired)
        refine ⟨a, sameKey, ?_⟩
        rw [noOlds, map_nil, nil_append, SlotOp.run_fill, Option.some_or]
      · have gone : a.key ∉ desired.map ManagedRoute.key := by
          intro kept
          obtain ⟨d', inDesired', same⟩ := mem_map.mp kept
          obtain rfl := one.eq_of_dst inDesired' inDesired
            ((ManagedRoute.dst_eq_of_key_eq same).trans here)
          exact sameKey same.symm
        have absent : d.key ∉ actual.map ManagedRoute.key := by
          intro present
          obtain ⟨o, member, same⟩ := mem_map.mp present
          obtain rfl := oneOwned.eq_of_dst (sublist.subset member) inOwned
            ((ManagedRoute.dst_eq_of_key_eq same).trans here.symm)
          exact sameKey same
        have olds : oldsAt desired actual d.dst = [a] :=
          here ▸ oldsAt_eq_singleton oneActual (unwanted a inOwned gone) gone
        refine ⟨d, rfl, ?_⟩
        rw [olds, newsAt_eq_singleton one inDesired absent]
        simp [SlotOp.act, Option.filter_some, M.takes_installed]
    · have absent : d.key ∉ actual.map ManagedRoute.key := by
        intro present
        obtain ⟨o, member, same⟩ := mem_map.mp present
        exact there (mem_map.mpr ⟨o, sublist.subset member, ManagedRoute.dst_eq_of_key_eq same⟩)
      have noOlds : oldsAt desired actual d.dst = [] := eq_nil_iff_forall_not_mem.mpr fun o old =>
        there (mem_map.mpr ⟨o, (oldsOf old).1, (oldsOf old).2.1⟩)
      rw [noOlds, newsAt_eq_singleton one inDesired absent]
      rcases find_agreed (M := M) agrees one inDesired with same | ⟨_, r, sameKey, filled⟩
      · rw [same, unoccupied d inDesired there]
        exact ⟨d, rfl, rfl⟩
      · rw [filled]
        exact ⟨r, sameKey, rfl⟩
  · intro dst entry found ours
    by_contra undesired
    have after : reached.routes.find dst = _ := find_after_plan oneActual dst
    rw [after, newsAt_eq_nil_of_undesired undesired, map_nil, append_nil, SlotOp.run_clear] at found
    obtain ⟨before, spared⟩ := Option.filter_eq_some_iff.mp found
    have held := find_agreed_undesired agrees undesired before
    have listed : dst ∈ owned.map ManagedRoute.dst :=
      by_contra fun unowned => state.onlyRoutes dst entry held unowned ours
    obtain ⟨a, inOwned, rfl⟩ := mem_map.mp listed
    obtain rfl := Option.some.inj ((state.routes a inOwned).symm.trans held)
    have gone : a.key ∉ desired.map ManagedRoute.key := by
      intro kept
      obtain ⟨d, inDesired, same⟩ := mem_map.mp kept
      exact undesired (mem_map.mpr ⟨d, inDesired, ManagedRoute.dst_eq_of_key_eq same⟩)
    have old := mem_oldsAt.mpr ⟨unwanted a inOwned gone, rfl, gone⟩
    simpa [M.takes_installed] using all_eq_true.mp spared a old

end Installing

/-! ### An apply's records -/

/-- The plan was computed from these records: its actual side is them, but for
wanted routes the kernel has lost. -/
def Prepare.PlannedFrom (platform : String) (p : Prepare) : Prop :=
  ∃ actual rules, p.plan = reconcile p.desired actual p.desiredRules rules platform ∧
      actual.Sublist p.owned ∧
      ∀ r ∈ p.owned, r.key ∉ p.desired.map ManagedRoute.key → r ∈ actual

/-- The records are those the apply has read, but for recordings over them
that agree with its desired set. -/
def Prepare.Follows (p : Prepare) (owned : Ownership) : Prop :=
  ∃ base between, Ownership.listOwned base = p.owned ∧
    owned = base.record between ∧ ∀ e ∈ between, e.Agrees p.desired

theorem Prepare.Follows.record {p : Prepare} {owned : Ownership} {op : PlanOp}
    (follows : p.Follows owned)
    (agrees : ∀ e ∈ op.effect, e.Agrees p.desired) :
    p.Follows (recordOwnership owned op) := by
  obtain ⟨base, between, read, rfl, agreed⟩ := follows
  rw [recordOwnership_eq]
  cases effect : op.effect with
  | none => exact ⟨base, between, read, rfl, agreed⟩
  | some e =>
    refine ⟨base, between ++ [e], read, ?_, ?_⟩
    · rw [Ownership.record, Ownership.record, foldl_append]
      rfl
    · intro other member
      rcases mem_append.mp member with earlier | now
      · exact agreed other earlier
      · rw [mem_singleton.mp now]
        exact agrees e effect

/-- The kernel is the one the apply has read, which held the recorded routes and
was free where a desired one is not recorded, but for effects over it that agree
with the desired set. -/
def Prepare.KernelFollows (M : Matching) (p : Prepare) (kernel : Kernel) : Prop :=
  ∃ base between rules, ManagedState base p.owned rules ∧
    (∀ d ∈ p.desired, d.dst ∉ p.owned.map ManagedRoute.dst → base.routes.find d.dst = none) ∧
    kernel = base.run M between ∧ ∀ e ∈ between, e.Agrees p.desired

theorem Prepare.KernelFollows.apply {p : Prepare} {kernel : Kernel} {e : Effect}
    (follows : p.KernelFollows M kernel) (agrees : e.Agrees p.desired) :
    p.KernelFollows M (kernel.apply M e) := by
  obtain ⟨base, between, rules, state, free, rfl, agreed⟩ := follows
  refine ⟨base, between ++ [e], rules, state, free, ?_, ?_⟩
  · rw [Kernel.run_append]
    rfl
  intro other member
  rcases mem_append.mp member with earlier | now
  · exact agreed other earlier
  · rwa [mem_singleton.mp now]

/-- The stages in which an apply has its desired set. -/
@[simp] def PrepareStage.hasDesired : PrepareStage → Bool
  | .locked => false
  | .read => false
  | _ => true

/-- The stages in which an apply has its plan. -/
@[simp] def PrepareStage.hasPlan : PrepareStage → Bool
  | .built => false
  | stage => stage.hasDesired

/-- An apply before it executes. -/
structure Prepare.OnRecords (M : Matching) (platform : String) (w : World) (p : Prepare) :
    Prop where
  read : p.stage = .read → w.owned.listOwned = p.owned ∧ ∃ rules, ManagedState w.kernel p.owned rules
  follows : p.stage.hasDesired → p.Follows w.owned ∧ p.KernelFollows M w.kernel
  planned : p.stage.hasPlan → p.PlannedFrom platform

/-- An execution: it runs its own operations over the kernel and records them over
the records. -/
structure Execution.OnRecords (M : Matching) (platform : String) (w : World) (x : Execution) :
    Prop where
  planned : x.prepared.PlannedFrom platform
  follows : ∀ applied todo, x.phase = .executing applied todo → x.prepared.Follows w.owned ∧
    x.prepared.plan.ops = applied ++ todo ∧
    ∃ kernel, x.prepared.KernelFollows M kernel ∧ w.kernel = kernel.run M (effects applied)
  recorded : ∀ todo, x.phase = .recording todo → ∃ owned done, x.prepared.Follows owned ∧
      x.prepared.plan.ops = done ++ todo ∧
      w.owned = done.foldl recordOwnership owned
  installed : ∀ todo, x.phase = .recording todo → ∃ kernel, x.prepared.KernelFollows M kernel ∧
    w.kernel = kernel.run M (effects x.prepared.plan.ops)

/-- The holder of the apply lock, if it is a policy apply, works on the
records. -/
structure Holder.OnRecords (M : Matching) (platform : String) (w : World) (holder : Holder) :
    Prop where
  preparing : ∀ p, holder = .preparing p → p.ownership = true → p.OnRecords M platform w
  executing : ∀ x, holder = .executing x → x.prepared.ownership = true → x.OnRecords M platform w

/-- A policy apply that has read the ownership records. -/
def Holder.hasRead : Holder → Bool
  | .preparing p => p.ownership && decide (p.stage ≠ .locked)
  | .executing x => x.prepared.ownership
  | _ => false

/-- No apply is under way that the operation would go against: none
that has read the owned routes and not built its desired set, and none whose
desired set the operation does not agree with. -/
def Holder.Tolerates (op : PlanOp) : Holder → Prop
  | .preparing p => p.ownership = true → p.stage ≠ .locked →
      p.stage.hasDesired ∧ ∀ e ∈ op.effect, e.Agrees p.desired
  | .executing x => x.prepared.ownership = false
  | _ => True

instance (op : PlanOp) (holder : Holder) : Decidable (holder.Tolerates op) := by
  unfold Holder.Tolerates
  split <;> infer_instance

/-- A step in which the apply's reads and writes of the ownership records
succeed, the kernel it reads holds what is recorded, and the destinations it is
to add routes at are free; and if a rollback runs or records an operation, the
apply under way tolerates it. -/
structure RecordsUndisturbed (s : State) (e : Event) : Prop where
  read : e ≠ .prepare (.readOwned true)
  record : e ≠ .execute (.record true)
  inStep : e = .prepare (.readOwned false) →
    ∃ rules, ManagedState s.world.kernel s.world.owned.listOwned rules
  free : ∀ desired rules, e = .prepare (.build desired rules) → ∀ d ∈ desired,
    d.dst ∉ s.world.owned.listOwned.map ManagedRoute.dst → s.world.kernel.routes.find d.dst = none
  replay : ∀ id p t op todo left fault,
    e = .resolver id (.rollbackOp fault) → s.process = .serving p →
    p.pending.find id = some t → t.phase = .rollingBack (op :: todo) left none →
    p.holder.Tolerates op
  rollback : ∀ id p t todo left op,
    e = .resolver id (.rollbackRecord false) → s.process = .serving p →
    p.pending.find id = some t → t.phase = .rollingBack todo left (some op) →
    p.holder.Tolerates op

/-- The events that the condition says nothing about. -/
def Event.isQuiet : Event → Bool
  | .prepare (.readOwned _) | .prepare (.build _ _) => false
  | .execute (.record fails) => !fails
  | .resolver _ (.rollbackOp _) | .resolver _ (.rollbackRecord _) => false
  | _ => true

theorem RecordsUndisturbed.of_isQuiet {s : State} {e : Event} (quiet : e.isQuiet) :
    RecordsUndisturbed s e := by
  constructor
  case read | record | inStep =>
    rintro rfl
    cases quiet
  case free =>
    rintro _ _ rfl
    cases quiet
  case replay =>
    rintro _ _ _ _ _ _ _ rfl
    cases quiet
  case rollback =>
    rintro _ _ _ _ _ _ rfl
    cases quiet

theorem RecordsUndisturbed.readOwned {s : State}
    (inStep : ∃ rules, ManagedState s.world.kernel s.world.owned.listOwned rules) :
    RecordsUndisturbed s (.prepare (.readOwned false)) :=
  ⟨by simp, by simp, fun _ => inStep, by simp, by simp, by simp⟩

theorem RecordsUndisturbed.build {s : State} {desired : List ManagedRoute}
    {rules : List ManagedRule} (free : ∀ d ∈ desired,
      d.dst ∉ s.world.owned.listOwned.map ManagedRoute.dst →
        s.world.kernel.routes.find d.dst = none) :
    RecordsUndisturbed s (.prepare (.build desired rules)) := by
  refine ⟨by simp, by simp, by simp, ?_, by simp, by simp⟩
  intro _ _ builds
  obtain ⟨rfl, rfl⟩ := PrepareEvent.build.inj (Event.prepare.inj builds)
  exact free

section

variable {s : State} {id : String} {p : Serving} {t : PendingTx} {todo left : List PlanOp}
  {op : PlanOp} (serves : s.process = .serving p) (found : p.pending.find id = some t)

include serves found

theorem RecordsUndisturbed.rollbackOp (replays : t.phase = .rollingBack (op :: todo) left none)
    (tolerates : p.holder.Tolerates op) (fault : Option String) :
    RecordsUndisturbed s (.resolver id (.rollbackOp fault)) := by
  refine ⟨by simp, by simp, by simp, by simp, ?_, by simp⟩
  intro id' p' t' op' todo' left' _ isEvent serves' found' replays'
  obtain ⟨rfl, _⟩ := Event.resolver.inj isEvent
  obtain rfl := Process.serving.inj (serves.symm.trans serves')
  obtain rfl := Option.some.inj (found.symm.trans found')
  obtain ⟨same, _⟩ := ResolvePhase.rollingBack.inj (replays.symm.trans replays')
  obtain rfl := (cons.inj same).1
  exact tolerates

theorem RecordsUndisturbed.rollbackRecord (records : t.phase = .rollingBack todo left (some op))
    (tolerates : p.holder.Tolerates op) :
    RecordsUndisturbed s (.resolver id (.rollbackRecord false)) := by
  refine ⟨by simp, by simp, by simp, by simp, by simp, ?_⟩
  intro id' p' t' todo' left' op' isEvent serves' found' records'
  obtain ⟨rfl, _⟩ := Event.resolver.inj isEvent
  obtain rfl := Process.serving.inj (serves.symm.trans serves')
  obtain rfl := Option.some.inj (found.symm.trans found')
  obtain ⟨_, _, same⟩ := ResolvePhase.rollingBack.inj (records.symm.trans records')
  obtain rfl := Option.some.inj same
  exact tolerates

end

variable {w : World}

theorem Prepare.OnRecords.step {pending : Pending} {p p' : Prepare}
    {e : PrepareEvent} (held : p.OnRecords M platform w)
    (reads : e ≠ .readOwned true)
    (inStep : e = .readOwned false → ∃ rules, ManagedState w.kernel w.owned.listOwned rules)
    (free : ∀ desired rules, e = .build desired rules → ∀ d ∈ desired,
      d.dst ∉ w.owned.listOwned.map ManagedRoute.dst → w.kernel.routes.find d.dst = none)
    (stepped : p.step platform w pending e = some p') :
    p'.OnRecords M platform w := by
  revert stepped
  fun_cases Prepare.step with
  | case1 fails =>
    rintro ⟨⟩
    cases fails with
    | true => exact absurd rfl reads
    | false => exact ⟨fun _ => ⟨rfl, inStep rfl⟩, by simp, by simp⟩
  | case3 desired desiredRules stage =>
    rintro ⟨⟩
    obtain ⟨read, rules, state⟩ := held.read stage
    refine ⟨by simp, fun _ => ⟨⟨w.owned, [], read, rfl, by simp⟩, ?_⟩, by simp⟩
    exact ⟨w.kernel, [], rules, state, read ▸ free desired desiredRules rfl, rfl, by simp⟩
  | case5 family fails stage | case7 family fails stage =>
    rintro ⟨⟩
    exact ⟨held.read, held.follows, by simp [stage]⟩
  | case9 heldBack tunnelsOnly stage =>
    rintro ⟨⟩
    refine ⟨by simp, fun _ => held.follows (by simp [stage]), fun _ => ?_⟩
    exact ⟨_, _, rfl, kept_sublist p.owned,
      fun r member undesired => mem_kept_of_unwanted member undesired⟩
  | case11 ready =>
    rintro ⟨⟩
    exact ⟨by simp, fun _ => held.follows (by simp [ready.1]),
      fun _ => held.planned (by simp [ready.1])⟩
  | case13 stage =>
    rintro ⟨⟩
    exact ⟨by simp, by simp, by simp⟩
  | case14 stage =>
    rintro ⟨⟩
    exact ⟨by simp, fun _ => held.follows (by simp [stage]),
      fun _ => held.planned (by simp [stage])⟩
  | _ => rintro ⟨⟩

theorem Execution.OnRecords.step {w' : World} {x x' : Execution}
    {e : ExecuteEvent} (held : x.OnRecords M platform w)
    (policy : x.prepared.ownership = true) (records : e ≠ .record true)
    (stepped : x.step M w e = some (w', x')) : x'.OnRecords M platform w' := by
  revert stepped
  fun_cases Execution.step with
  | case1 fault applied op todo phase kernel done =>
    rintro ⟨⟩
    obtain ⟨follows, ops, base, kernelFollows, ran⟩ := held.follows _ _ phase
    obtain ⟨e, effect, rfl⟩ := doOp_ok done
    refine ⟨held.planned, ?_, by simp, by simp⟩
    intro applied' todo' executing
    obtain ⟨rfl, rfl⟩ := ExecutePhase.executing.inj executing
    refine ⟨follows, by simp [ops], base, kernelFollows, ?_⟩
    have one : effects [op] = [e] := by simp [effects, effect]
    rw [effects_append, Kernel.run_append, ← ran, one]
    rfl
  | case4 applied phase todo =>
    rintro ⟨⟩
    obtain ⟨follows, ops, base, kernelFollows, ran⟩ := held.follows _ _ phase
    refine ⟨held.planned, by simp, ?_, ?_⟩
    · intro rest recording
      have all : todo = x.prepared.plan.ops := if_pos policy
      obtain rfl := ExecutePhase.recording.inj (all ▸ recording)
      exact ⟨w.owned, [], follows, rfl, rfl⟩
    · intro rest _
      exact ⟨base, kernelFollows, by simpa [ops] using ran⟩
  | case8 fails op todo phase =>
    rintro ⟨⟩
    refine ⟨held.planned, by simp, ?_, fun _ _ => held.installed _ phase⟩
    intro rest recording
    cases recording
    obtain ⟨owned, done, read, ops, recorded⟩ := held.recorded _ phase
    cases fails with
    | true => exact absurd rfl records
    | false =>
      refine ⟨owned, done ++ [op], read, by simp [ops], ?_⟩
      rw [foldl_append, ← recorded]
      rfl
  | _ => rintro ⟨⟩ <;> exact ⟨held.planned, by simp, by simp, by simp⟩

variable {holder : Holder}

theorem Holder.OnRecords.congr {w' : World}
    (held : holder.OnRecords M platform w) (same : w'.owned = w.owned)
    (sameKernel : w'.kernel = w.kernel) : holder.OnRecords M platform w' where
  preparing p holds policy := by
    obtain ⟨read, follows, planned⟩ := held.preparing p holds policy
    rw [← same, ← sameKernel] at read follows
    exact ⟨read, follows, planned⟩
  executing x holds policy := by
    obtain ⟨planned, follows, recorded, installed⟩ := held.executing x holds policy
    rw [← sameKernel] at installed
    rw [← same] at recorded
    rw [← same, ← sameKernel] at follows
    exact ⟨planned, follows, recorded, installed⟩

theorem Holder.OnRecords.of_not_read
    (notRead : holder.hasRead = false) : holder.OnRecords M platform w where
  preparing p holds policy := by
    subst holds
    have locked : p.stage = .locked := by
      simpa [Holder.hasRead, policy] using notRead
    exact ⟨by simp [locked], by simp [locked], by simp [locked]⟩
  executing x holds policy := by
    subst holds
    simp [Holder.hasRead, policy] at notRead

theorem Holder.OnRecords.settle {settling next : Settling} (held : holder.OnRecords M platform w)
    (waits : holder.settling = some settling) :
    (holder.settle next).OnRecords M platform w where
  preparing p' settled policy := by
    obtain ⟨p, holds, rfl⟩ := Holder.settle_preparing waits settled
    have onRecords := held.preparing p holds policy
    rw [holds] at waits
    simp only [Holder.settling] at waits
    split at waits
    · rename_i stage
      exact ⟨by simp, fun _ => onRecords.follows (by simp [stage]),
        fun _ => onRecords.planned (by simp [stage])⟩
    · cases waits
  executing x settled _ := absurd settled (Holder.settle_ne_executing waits)

/-- A rollback's operation that the holder tolerates is run or recorded. -/
theorem Holder.OnRecords.tolerated {op : PlanOp} {w' : World}
    (held : holder.OnRecords M platform w) (tolerates : holder.Tolerates op)
    (owned : w'.owned = w.owned ∨ w'.owned = recordOwnership w.owned op)
    (kernel : w'.kernel = w.kernel ∨ ∃ e ∈ op.effect, w'.kernel = w.kernel.apply M e) :
    holder.OnRecords M platform w' := by
  constructor
  · intro p holds policy
    subst holds
    have onRecords := held.preparing p rfl policy
    by_cases locked : p.stage = .locked
    · exact ⟨by simp [locked], by simp [locked], by simp [locked]⟩
    · obtain ⟨built, agrees⟩ := tolerates policy locked
      obtain ⟨follows, kernelFollows⟩ := onRecords.follows built
      refine ⟨?_, fun _ => ⟨?_, ?_⟩, onRecords.planned⟩
      · intro read
        simp [read] at built
      · rcases owned with same | recorded
        · exact same ▸ follows
        · exact recorded ▸ follows.record agrees
      · rcases kernel with same | ⟨e, effect, ran⟩
        · exact same ▸ kernelFollows
        · exact ran ▸ kernelFollows.apply (agrees e effect)
  · intro x holds policy
    subst holds
    have notPolicy : x.prepared.ownership = false := tolerates
    rw [policy] at notPolicy
    cases notPolicy

theorem Holder.OnRecords.step {s : State} {w' : World} {p p' : Serving}
    {e : Event} (held : p.holder.OnRecords M platform s.world)
    (serves : s.process = .serving p) (ok : RecordsUndisturbed s e)
    (moves : p.Moves M platform s.world e w' p') :
    p'.holder.OnRecords M platform w' := by
  cases moves with
  | lockApply _ _ _ _ _ => exact .of_not_read (by simp [Holder.hasRead])
  | lockRouteOp | giveUp | undone | finishUnguarded | finishGuarded | panicLock | panicFlush =>
    exact .of_not_read rfl
  | prepare e holds stepped =>
    refine ⟨?_, nofun⟩
    intro q' prepares policy
    obtain rfl := Holder.preparing.inj prepares
    have wasPolicy := (Prepare.step_ownership stepped).symm.trans policy
    refine (held.preparing _ holds wasPolicy).step ?_ ?_ ?_ stepped
    · exact fun reads => ok.read (reads ▸ rfl)
    · exact fun reads => ok.inStep (reads ▸ rfl)
    · exact fun desired rules builds => ok.free desired rules (builds ▸ rfl)
  | ask waits | await waits _ => exact held.settle waits
  | @journal q fails holds ready =>
    refine ⟨nofun, ?_⟩
    intro x executes policy
    obtain rfl := Holder.executing.inj executes
    have onRecords := held.preparing q holds policy
    obtain ⟨follows, kernelFollows⟩ := onRecords.follows (by simp [ready])
    refine ⟨onRecords.planned (by simp [ready]), ?_, nofun, nofun⟩
    intro applied todo executing
    obtain ⟨rfl, rfl⟩ := ExecutePhase.executing.inj executing
    exact ⟨follows, rfl, s.world.kernel, kernelFollows, rfl⟩
  | @execute x x' _ e holds stepped =>
    refine ⟨nofun, ?_⟩
    intro y executes policy
    obtain rfl := Holder.executing.inj executes
    have wasPolicy : x.prepared.ownership = true := (Execution.step_keeps stepped).1 ▸ policy
    refine (held.executing x holds wasPolicy).step wasPolicy ?_ stepped
    exact fun records => ok.record (records ▸ rfl)
  | decide | finishTx | panicStart => exact held
  | @resolver id t t' _ r found stepped =>
    cases PendingTx.moves_of_step stepped with
    | record fails records =>
      cases fails with
      | true => exact held
      | false =>
        exact held.tolerated (ok.rollback id p t _ _ _ rfl serves found records) (.inr rfl)
          (.inl rfl)
    | commitTaken | rollbackTaken | opFailed => exact held
    | commit | complete | incomplete => exact held.congr rfl rfl
    | opDone fault replays done =>
      obtain ⟨e, effect, rfl⟩ := doOp_ok done
      exact held.tolerated (ok.replay id p t _ _ _ fault rfl serves found replays) (.inl rfl)
        (.inr ⟨e, effect, rfl⟩)

-- A second apply while the first one's transaction is on probation.
namespace RollbackBesideApply

def first : ManagedRoute :=
  { route :=
      { dstCIDR := "10.1.0.0/16", gateway := "192.168.1.1", iface := "eth0" }
    profileID := "work" }

def second : ManagedRoute :=
  { route :=
      { dstCIDR := "10.2.0.0/16", gateway := "192.168.1.1", iface := "eth0" }
    profileID := "work" }

def idle : State :=
  { world :=
      { kernel := { routes := .empty, rules := .empty }
        owned := .empty
        journal := .empty }
    process := .serving {} }

def plan (desired : List ManagedRoute) : List Event :=
  [.prepare (.readOwned false), .prepare (.build desired []),
    .prepare (.readRoutes .v4 false), .prepare (.plan (fun _ => false) false)]

/-- Supersede, execute and record a plan of this many operations. -/
def execute (ops : Nat) : List Event :=
  [.prepare .supersede, .prepare .superseded, .journal false] ++
    replicate ops (.execute (.exec none)) ++ [.execute .executed] ++
    replicate ops (.execute (.record false))

/-- The first apply's transaction gets on probation, and the second apply
makes its plan. -/
def plans (desired : List ManagedRoute) : List Event :=
  .lockApply false false false :: plan [first] ++ execute 1 ++
    .finish false :: .lockApply false false false :: plan desired

/-- The first apply's transaction is on probation. -/
def onProbation : State :=
  let plan := reconcile [first] [] [] [] "linux"
  { world :=
      { kernel := { routes := ⟨[installed first], by decide⟩, rules := .empty }
        owned := Ownership.after [.put first]
        journal := Journal.putPendingTx .empty (txID 1) plan }
    process := .serving
      { idseq := 1
        pending := KeyedTable.empty.put
          { id := txID 1, plan := plan, interactive := false, ownership := true } } }

/-- The watchdog rolls the first transaction back. -/
def rollback : List Event :=
  [.decide (txID 1) .rollbackWatchdog, .resolver (txID 1) .takeDecision,
    .resolver (txID 1) (.rollbackOp none),
    .resolver (txID 1) (.rollbackRecord false),
    .resolver (txID 1) (.rollbackEnd false), .finishTx (txID 1)]

end RollbackBesideApply

open RollbackBesideApply

theorem managedState_of_rows {k : Kernel} {owned : List ManagedRoute}
    (holds : ∀ a ∈ owned, k.routes.find a.dst = some (installed a))
    (only : ∀ entry ∈ k.routes.rows, entry.owner = .riftRoute →
      dstKey entry ∈ owned.map ManagedRoute.dst)
    (noRules : k.rules = .empty) : ManagedState k owned [] where
  routes := holds
  rules := by simp
  onlyRules key _ := by rw [noRules]; rfl
  onlyRoutes dst entry found elsewhere ours := by
    obtain rfl := KeyedTable.key_of_find found
    exact elsewhere (only entry (KeyedTable.mem_of_find found) ours)

end RiftRoute
