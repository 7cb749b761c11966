/-
Module: RiftRoute.Safety.Executor
Purpose: How plan operations reach the kernel, one plan as a unit or a list
  best-effort, and what running a reconcile plan, or part of it and then its
  inverse, leaves there, read off one destination or rule at a time.
Trusted boundary: human-reviewed spec
-/
import RiftRoute.Provider.MacRoutes

namespace RiftRoute

open List Effect SlotOp

/-- Go's `%q` for texts of printable characters. -/
def quote (s : String) : String :=
  let escaped := s.toList.flatMap fun c =>
    if c = '"' ∨ c = '\\' then ['\\', c] else [c]
  "\"" ++ String.ofList escaped ++ "\""

/-- One provider call: it fails with `fault` and no effect, or goes through. -/
def call (M : Matching) (fault : Option String) (k : Kernel) (e : Effect) : Except String Kernel :=
  match fault with
  | some err => .error err
  | none => .ok (k.apply M e)

/-- One operation. -/
def doOp (M : Matching) (fault : Option String) (k : Kernel) (op : PlanOp) : Except String Kernel :=
  match op.kind with
  | .addRoute =>
    match op.route with
    | none => .error "add_route op missing route"
    | some mr => call M fault k (.addRoute mr)
  | .delRoute =>
    match op.route with
    | none => .error "del_route op missing route"
    | some mr => call M fault k (.delRoute mr)
  | .addRule =>
    match op.rule with
    | none => .error "add_rule op missing rule"
    | some mr => call M fault k (.addRule mr)
  | .delRule =>
    match op.rule with
    | none => .error "del_rule op missing rule"
    | some mr => call M fault k (.delRule mr)
  | .unknown text => .error ("unknown op kind " ++ quote text)

/-- Which operations of a run fail, by their position in it. -/
abbrev Faults := Nat → Option String

/-- A run in which every provider call succeeds. -/
def noFaults : Faults := fun _ => none

/-- A run in which one provider call fails. -/
def faultAt (n : Nat) (err : String) : Faults := fun m => if m = n then some err else none

/-- The kernel during a run, and how many operations were tried. -/
structure Host where
  kernel : Kernel
  tried : Nat := 0

def Host.doOp (M : Matching) (faults : Faults) (h : Host) (op : PlanOp) : Option String × Host :=
  match RiftRoute.doOp M (faults h.tried) h.kernel op with
  | .error err => (some err, { h with tried := h.tried + 1 })
  | .ok kernel => (none, { kernel := kernel, tried := h.tried + 1 })

namespace Executor

variable (M : Matching) (faults : Faults)

/-- Undo the operations made so far, last first; what fails is ignored. -/
def rollback (applied : List PlanOp) (h : Host) : Host :=
  (applied.reverse.map inverseOp).foldl (fun h op => (h.doOp M faults op).2) h

/-- The loop of `Apply`: `applied` are the operations made so far. -/
def applyFrom (applied : List PlanOp) : List PlanOp → Host → Option String × Host
  | [], h => (none, h)
  | op :: ops, h =>
    match h.doOp M faults op with
    | (some err, h) =>
      (some ("op " ++ quote op.human ++ " failed (rolled back " ++
          toString applied.length ++ " prior op(s)): " ++ err),
        rollback M faults applied h)
    | (none, h) => applyFrom (applied ++ [op]) ops h

/-- Run a plan's operations as one unit. -/
def apply (plan : Plan) (k : Kernel) : Option String × Host :=
  applyFrom M faults [] plan.ops { kernel := k }

/-- Run operations best-effort: an error is kept, not acted on. -/
def runOps (ops : List PlanOp) (h : Host) : Option String × Host :=
  ops.foldl (fun (firstErr, h) op =>
      let (err, h) := h.doOp M faults op
      (firstErr.or err, h))
    (none, h)

end Executor

/-! ### Operations as effects -/

variable {M : Matching} {faults : Faults}

variable {op : PlanOp}

theorem doOp_of_effect {fault : Option String} {k : Kernel}
    {e : Effect} (effect : op.effect = some e) :
    doOp M fault k op = call M fault k e := by
  obtain ⟨kind, route, rule, _, _⟩ := op
  cases kind <;> cases route <;> cases rule <;> cases effect <;> rfl

theorem doOp_of_no_effect (fault : Option String) (k : Kernel)
    (effect : op.effect = none) : ∃ err, doOp M fault k op = .error err := by
  obtain ⟨kind, route, rule, _, _⟩ := op
  cases kind <;> cases route <;> cases rule <;> cases effect <;> exact ⟨_, rfl⟩

theorem doOp_ok {fault : Option String} {k k' : Kernel} (done : doOp M fault k op = .ok k') :
    ∃ e, op.effect = some e ∧ k' = k.apply M e := by
  cases effect : op.effect with
  | none =>
    obtain ⟨err, refused⟩ := doOp_of_no_effect (M := M) fault k effect
    rw [refused] at done
    exact absurd done (by simp)
  | some e =>
    rw [doOp_of_effect effect] at done
    cases fault with
    | none => exact ⟨e, rfl, (Except.ok.inj done).symm⟩
    | some err => exact absurd done (by simp [call])

theorem Host.doOp_of_effect {h : Host} {e : Effect}
    (effect : op.effect = some e) (clean : faults h.tried = none) :
    h.doOp M faults op = (none, { kernel := h.kernel.apply M e, tried := h.tried + 1 }) := by
  simp [Host.doOp, RiftRoute.doOp_of_effect effect, clean, call]

theorem Host.doOp_of_fault {h : Host} {err : String}
    (effect : op.effect.isSome) (fault : faults h.tried = some err) :
    h.doOp M faults op = (some err, { h with tried := h.tried + 1 }) := by
  obtain ⟨e, effect⟩ := Option.isSome_iff_exists.mp effect
  simp [Host.doOp, RiftRoute.doOp_of_effect effect, fault, call]

theorem Host.kernel_doOp {h : Host} (clean : faults h.tried = none) :
    (h.doOp M faults op).2 = { kernel := h.kernel.run M (effects [op]), tried := h.tried + 1 } := by
  cases effect : op.effect with
  | none =>
    obtain ⟨err, refused⟩ :=
      doOp_of_no_effect (M := M) (faults h.tried) h.kernel effect
    simp [Host.doOp, refused, effects, effect]
  | some e => simp [Host.doOp_of_effect effect clean, effects, effect]

namespace Executor

variable {h : Host}

theorem foldl_doOp {ops : List PlanOp} (clean : ∀ n, h.tried ≤ n → faults n = none) :
    ops.foldl (fun h op => (h.doOp M faults op).2) h =
      { kernel := h.kernel.run M (effects ops)
        tried := h.tried + ops.length } := by
  induction ops generalizing h with
  | nil => simp
  | cons op ops ih =>
    rw [foldl_cons, Host.kernel_doOp (clean _ (Nat.le_refl _)), ih]
    · have split : effects (op :: ops) = effects [op] ++ effects ops := effects_append [op] ops
      simp only [split, Kernel.run_append, length_cons, Host.mk.injEq, true_and]
      omega
    · intro n later
      exact clean n (Nat.le_of_succ_le later)

theorem runOps_host (ops : List PlanOp) (h : Host) : (runOps M faults ops h).2 =
      ops.foldl (fun h op => (h.doOp M faults op).2) h := by
  have hosts : ∀ (ops : List PlanOp) (firstErr : Option String) (h : Host),
      (ops.foldl (fun (firstErr, h) op =>
        let (err, h) := h.doOp M faults op
        (firstErr.or err, h)) (firstErr, h)).2 =
        ops.foldl (fun h op => (h.doOp M faults op).2) h := by
    intro ops
    induction ops with
    | nil => exact fun _ _ => rfl
    | cons op ops ih =>
      intro firstErr h
      exact ih _ _
  exact hosts ops none h

theorem runOps_kernel {ops : List PlanOp} (clean : ∀ n, h.tried ≤ n → faults n = none) :
    (runOps M faults ops h).2 =
      { kernel := h.kernel.run M (effects ops)
        tried := h.tried + ops.length } := by
  rw [runOps_host, foldl_doOp clean]

theorem runOps_noFaults (ops : List PlanOp) (h : Host) :
    (runOps M noFaults ops h).2.kernel = h.kernel.run M (effects ops) := by
  rw [runOps_kernel]
  exact fun _ _ => rfl

theorem applyFrom_append {pre : List PlanOp} (rest applied : List PlanOp)
    (wellFormed : ∀ op ∈ pre, op.effect.isSome)
    (clean : ∀ n, h.tried ≤ n → n < h.tried + pre.length → faults n = none) :
    applyFrom M faults applied (pre ++ rest) h = applyFrom M faults (applied ++ pre) rest
        { kernel := h.kernel.run M (effects pre)
          tried := h.tried + pre.length } := by
  induction pre generalizing applied h with
  | nil => simp
  | cons op pre ih =>
    obtain ⟨e, effect⟩ := Option.isSome_iff_exists.mp (wellFormed op mem_cons_self)
    have first := Host.doOp_of_effect (M := M) effect (clean h.tried (Nat.le_refl _) (by simp))
    have next : applyFrom M faults applied (op :: (pre ++ rest)) h =
        applyFrom M faults (applied ++ [op]) (pre ++ rest)
          { kernel := h.kernel.apply M e, tried := h.tried + 1 } := by
      rw [applyFrom, first]
    rw [cons_append, next, ih (applied ++ [op])]
    · have split : effects (op :: pre) = e :: effects pre := by
        simp [effects, effect]
      simp only [split, Kernel.run_cons, append_assoc,
        singleton_append, length_cons, Nat.add_assoc,
        Nat.add_comm 1]
    · intro other member
      exact wellFormed other (mem_cons_of_mem _ member)
    · intro n later bound
      apply clean n (Nat.le_of_succ_le later)
      simp only [length_cons] at bound ⊢
      omega

theorem apply_ok {plan : Plan} {k : Kernel} (wellFormed : ∀ op ∈ plan.ops, op.effect.isSome) :
    apply M noFaults plan k =
      (none, { kernel := k.run M (effects plan.ops)
               tried := plan.ops.length }) := by
  have whole : applyFrom M noFaults [] (plan.ops ++ []) { kernel := k } = _ :=
    applyFrom_append [] [] wellFormed fun _ _ _ => rfl
  simpa [apply, applyFrom] using whole

theorem applyFrom_fault {applied post : List PlanOp} {op : PlanOp}
    {err : String} (effect : op.effect.isSome)
    (fault : faults h.tried = some err)
    (clean : ∀ n, h.tried < n → faults n = none) :
    ∃ message tried, applyFrom M faults applied (op :: post) h = (some message,
          { kernel := h.kernel.run M
              ((effects applied).reverse.map inverse)
            tried := tried }) := by
  have undone : rollback M faults applied { h with tried := h.tried + 1 } = _ := foldl_doOp clean
  rw [effects_reverse_inverseOp] at undone
  rw [applyFrom, Host.doOp_of_fault effect fault]
  exact ⟨_, _, Prod.ext rfl undone⟩

theorem apply_fault {plan : Plan} {k : Kernel} {pre post : List PlanOp}
    {op : PlanOp} (err : String) (split : plan.ops = pre ++ op :: post)
    (wellFormed : ∀ op ∈ plan.ops, op.effect.isSome) :
    ∃ message tried, apply M (faultAt pre.length err) plan k = (some message,
          { kernel := (k.run M (effects pre)).run M
              ((effects pre).reverse.map inverse)
            tried := tried }) := by
  have preWellFormed : ∀ other ∈ pre, other.effect.isSome := by
    intro other member
    exact wellFormed other (by simp [split, member])
  rw [apply, split, applyFrom_append (op :: post) [] preWellFormed]
  · have fault : faultAt pre.length err (0 + pre.length) = some err := by
      simp [faultAt]
    apply applyFrom_fault (wellFormed op (by simp [split])) fault
    intro n later
    simp only [Nat.zero_add] at later
    exact if_neg (Nat.ne_of_gt later)
  · intro n _ bound
    simp only [Nat.zero_add] at bound
    exact if_neg (Nat.ne_of_lt bound)

end Executor

/-- No two routes share a destination. -/
def OnePerDst (rs : List ManagedRoute) : Prop := (rs.map ManagedRoute.dst).Nodup

instance (rs : List ManagedRoute) : Decidable (OnePerDst rs) :=
  inferInstanceAs (Decidable (List.Nodup _))

/-- The kernel holds the actual routes as RiftRoute installed them, and its
rules are exactly the actual ones. -/
structure Holds (k : Kernel) (actual : List ManagedRoute)
    (actualRules : List ManagedRule) : Prop where
  routes : ∀ a ∈ actual, k.routes.find a.dst = some (installed a)
  rules : ∀ a ∈ actualRules, k.rules.find a.key = some (installedRule a)
  onlyRules : ∀ key, key ∉ actualRules.map ManagedRule.key → k.rules.find key = none

/-- The actual routes are all the kernel holds of RiftRoute's: every other
entry has another owner. -/
structure ManagedState (k : Kernel) (actual : List ManagedRoute)
    (actualRules : List ManagedRule) : Prop extends
    Holds k actual actualRules where
  onlyRoutes : ∀ dst entry, k.routes.find dst = some entry →
    dst ∉ actual.map ManagedRoute.dst → entry.owner ≠ .riftRoute

/-- Deleting again a route the effects add takes no entry that stays: whatever
holds its destination is deleted by the plan, or is not taken. -/
def Spares (M : Matching) (k : Kernel) (desired actual : List ManagedRoute)
    (es : List Effect) : Prop :=
  ∀ d, .addRoute d ∈ es → oldsAt desired actual d.dst = [] →
    ∀ entry ∈ k.routes.find d.dst, M.takes d entry = false

variable {rs : List ManagedRoute}

theorem OnePerDst.nodup_key (one : OnePerDst rs) : (rs.map ManagedRoute.key).Nodup := by
  have dsts : rs.map ManagedRoute.dst = (rs.map ManagedRoute.key).map RouteKey.dst := by simp
  rw [OnePerDst, dsts] at one
  exact one.of_map _

theorem OnePerDst.eq_of_dst (one : OnePerDst rs)
    {first second : ManagedRoute} (firstMember : first ∈ rs)
    (secondMember : second ∈ rs) (same : first.dst = second.dst) :
    first = second :=
  inj_on_of_nodup_map one firstMember secondMember same

theorem OnePerDst.filter_dst (one : OnePerDst rs) {r : ManagedRoute} (accept : ManagedRoute → Bool)
    (member : r ∈ rs.filter accept)
    (sameDst : ∀ other ∈ rs.filter accept, other.dst = r.dst) :
    rs.filter accept = [r] := by
  have nodup : (rs.filter accept).Nodup := (List.Nodup.of_map _ one).filter _
  rw [← perm_singleton]
  apply (perm_ext_iff_of_nodup nodup (nodup_singleton r)).mpr
  intro other
  rw [mem_singleton]
  constructor
  · intro otherMember
    exact one.eq_of_dst (mem_of_mem_filter otherMember)
      (mem_of_mem_filter member) (sameDst other otherMember)
  · rintro rfl
    exact member

theorem OnePerDst.oldsAt {actual : List ManagedRoute}
    (one : OnePerDst actual) (desired : List ManagedRoute) (dst : DstKey) :
    RiftRoute.oldsAt desired actual dst = [] ∨ ∃ a ∈ actual, a.dst = dst ∧
      a.key ∉ desired.map ManagedRoute.key ∧
      RiftRoute.oldsAt desired actual dst = [a] := by
  cases olds : RiftRoute.oldsAt desired actual dst with
  | nil => exact .inl rfl
  | cons a rest =>
    have member : a ∈ RiftRoute.oldsAt desired actual dst := by simp [olds]
    obtain ⟨inActual, here, undesired⟩ := mem_oldsAt.mp member
    have single : RiftRoute.oldsAt desired actual dst = [a] :=
      one.filter_dst _ member fun other otherMember =>
        (dst_of_mem_oldsAt otherMember).trans here.symm
    exact .inr ⟨a, inActual, here, undesired, olds.symm.trans single⟩

theorem OnePerDst.newsAt {desired : List ManagedRoute}
    (one : OnePerDst desired) (actual : List ManagedRoute) (dst : DstKey) :
    RiftRoute.newsAt desired actual dst = [] ∨ ∃ d ∈ desired, d.dst = dst ∧
      d.key ∉ actual.map ManagedRoute.key ∧
      RiftRoute.newsAt desired actual dst = [d] :=
  -- what is new for one set of routes is old for the other
  one.oldsAt actual dst

section Restore

variable {k : Kernel} {desired actual : List ManagedRoute}
  {desiredRules actualRules : List ManagedRule} {platform : String}

theorem restores_at (one : OnePerDst actual) (holds : Holds k actual actualRules)
    {dst : DstKey} {done undone : List Effect} (spares : Spares M k desired actual undone)
    (doneUndone : done <+: undone)
    (within : undone <+: (oldsAt desired actual dst).map .delRoute ++
      (newsAt desired actual dst).map .addRoute) :
    run (k.routes.find dst) ((done ++ undone.reverse.map inverse).filterMap
        (slotOp M)) = k.routes.find dst := by
  have inverseAdds : ∀ rs : List ManagedRoute, (rs.map Effect.addRoute).reverse.map inverse =
        rs.reverse.map .delRoute := by
    simp [inverse, Function.comp_def]
  rcases one.oldsAt desired dst with
    none | ⟨a, inActual, here, _, old⟩
  · -- nothing is deleted: adds are undone by deletes
    rw [none, map_nil, nil_append] at within
    obtain ⟨undoneNews, inNews, rfl⟩ := prefix_map_iff.mp within
    obtain ⟨doneNews, inUndone, rfl⟩ := prefix_map_iff.mp doneUndone
    rw [inverseAdds, filterMap_append, filterMap_slotOp_add, filterMap_slotOp_del]
    apply run_fill_clear installed M.takes M.takes_installed
    · intro r member
      exact mem_reverse.mpr (inUndone.subset member)
    · intro entry found r member
      obtain ⟨_, rfl, _⟩ := mem_newsAt.mp (inNews.subset (mem_reverse.mp member))
      exact spares r (mem_map_of_mem (mem_reverse.mp member)) none entry found
  · have held : k.routes.find dst = some (installed a) := here ▸ holds.routes a inActual
    rw [old, map_singleton, singleton_append] at within
    rw [held]
    rcases prefix_cons_iff.mp within with rfl | ⟨rest, rfl, restIn⟩
    · rw [prefix_nil.mp doneUndone]
      rfl
    · obtain ⟨undoneNews, _, rfl⟩ := prefix_map_iff.mp restIn
      have undo : (Effect.delRoute a :: undoneNews.map Effect.addRoute).reverse.map inverse =
            undoneNews.reverse.map .delRoute ++ [.addRoute a] := by
        rw [reverse_cons, map_append, inverseAdds]
        rfl
      have refill : [Effect.addRoute a].filterMap (slotOp M) =
          [a].map fun r => .fill (installed r) := rfl
      rw [undo, filterMap_append, filterMap_append, filterMap_slotOp_del, refill]
      rcases prefix_cons_iff.mp doneUndone with rfl | ⟨rest, rfl, restIn⟩
      · exact run_clear_fill_back installed M.takes (by simp) (by simp)
      · obtain ⟨doneNews, inUndone, rfl⟩ := prefix_map_iff.mp restIn
        have forward : (Effect.delRoute a :: doneNews.map Effect.addRoute).filterMap
              (slotOp M) =
              .clear (M.takes a) :: doneNews.map fun r => .fill (installed r) := by
          rw [← filterMap_slotOp_add M]
          rfl
        rw [forward]
        apply run_replace_refill installed M.takes M.takes_installed
        intro r member
        exact mem_reverse.mpr (inUndone.subset member)

variable {key : RuleKey}

theorem mem_oldRulesAt {r : ManagedRule} :
    r ∈ oldRulesAt desiredRules actualRules key ↔ r ∈ actualRules ∧
      r.key = key ∧ r.key ∉ desiredRules.map ManagedRule.key := by
  rw [oldRulesAt, mem_filter, decide_eq_true_iff]

theorem mem_newRulesAt {r : ManagedRule} :
    r ∈ newRulesAt desiredRules actualRules key ↔ r ∈ desiredRules ∧
      r.key = key ∧ r.key ∉ actualRules.map ManagedRule.key :=
  mem_oldRulesAt

section Rules

variable (holds : Holds k actual actualRules)

include holds

theorem deleted_rules_back {done undone : List ManagedRule}
    (olds : undone ⊆ oldRulesAt desiredRules actualRules key) (covered : undone = [] → done = []) :
    run (k.rules.find key)
      ((done.map Effect.delRule ++ undone.map Effect.addRule).filterMap ruleSlotOp) =
        k.rules.find key := by
  rw [filterMap_append, filterMap_ruleSlotOp_del, filterMap_ruleSlotOp_add]
  refine run_clear_fill_back installedRule _ (fun r member => ?_) covered
  obtain ⟨inActual, rfl, _⟩ := mem_oldRulesAt.mp (olds member)
  exact holds.rules r inActual

theorem added_rules_back {done undone : List ManagedRule}
    (news : undone ⊆ newRulesAt desiredRules actualRules key) (covered : done ⊆ undone) :
    run (k.rules.find key)
      ((done.map Effect.addRule ++ undone.map Effect.delRule).filterMap ruleSlotOp) =
        k.rules.find key := by
  rw [filterMap_append, filterMap_ruleSlotOp_add, filterMap_ruleSlotOp_del]
  refine run_fill_clear installedRule (fun _ _ => true) (fun _ => rfl) _ covered
    fun entry found r member => ?_
  obtain ⟨_, rfl, absent⟩ := mem_newRulesAt.mp (news member)
  rw [holds.onlyRules r.key absent] at found
  exact absurd found (by simp)

theorem restores_rule_at {done undone : List Effect} (doneUndone : done <+: undone)
    (within : undone <+: (newRulesAt desiredRules actualRules key).map .addRule ++
        (oldRulesAt desiredRules actualRules key).map .delRule) :
    run (k.rules.find key) ((done ++ undone.reverse.map inverse).filterMap
        ruleSlotOp) = k.rules.find key := by
  rcases newRulesAt_eq_nil_or_oldRulesAt_eq_nil desiredRules actualRules key with
    noNews | noOlds
  · -- only deletes: every deleted rule is the one that was there
    rw [noNews, map_nil, nil_append] at within
    obtain ⟨undoneOlds, inOlds, rfl⟩ := prefix_map_iff.mp within
    obtain ⟨doneOlds, inUndone, rfl⟩ := prefix_map_iff.mp doneUndone
    have undo : (undoneOlds.map Effect.delRule).reverse.map inverse =
        undoneOlds.reverse.map .addRule := by
      simp [inverse, Function.comp_def]
    rw [undo]
    refine deleted_rules_back holds (fun r member => inOlds.subset (mem_reverse.mp member)) ?_
    intro none
    rw [reverse_eq_nil_iff.mp none] at inUndone
    exact prefix_nil.mp inUndone
  · rw [noOlds, map_nil, append_nil] at within
    obtain ⟨undoneNews, inNews, rfl⟩ := prefix_map_iff.mp within
    obtain ⟨doneNews, inUndone, rfl⟩ := prefix_map_iff.mp doneUndone
    have undo : (undoneNews.map Effect.addRule).reverse.map inverse =
        undoneNews.reverse.map .delRule := by
      simp [inverse, Function.comp_def]
    rw [undo]
    exact added_rules_back holds (fun r member => inNews.subset (mem_reverse.mp member))
      fun r member => mem_reverse.mpr (inUndone.subset member)

end Rules

/-- A plan's effects, of which the first were done, are undone by the inverses
of all of them exactly when these take no entry that stays. -/
theorem restores_iff (one : OnePerDst actual) (holds : Holds k actual actualRules)
    {done undone : List Effect} (doneUndone : done <+: undone)
    (within : undone <+: effects (reconcile desired actual desiredRules actualRules platform).ops) :
    ((k.run M done).run M (undone.reverse.map inverse)).Same k ↔
      Spares M k desired actual undone := by
  have within_at : ∀ dst, effectsAt dst undone <+: (oldsAt desired actual dst).map .delRoute ++
      (newsAt desired actual dst).map .addRoute := by
    intro dst
    rw [← reconcile_effectsAt one.nodup_key]
    exact within.filter _
  have at_dst : ∀ dst, ((k.run M done).run M (undone.reverse.map inverse)).routes.find dst =
      run (k.routes.find dst) ((effectsAt dst done ++
        (effectsAt dst undone).reverse.map inverse).filterMap (slotOp M)) := by
    intro dst
    rw [← Kernel.run_append, Kernel.find_run, effectsAt_append, effectsAt_reverse_inverse]
  constructor
  · intro same d added noOlds entry found
    have back := same.routes d.dst
    have news := within_at d.dst
    rw [noOlds, map_nil, nil_append] at news
    obtain ⟨undoneNews, _, undoneAt⟩ := prefix_map_iff.mp news
    have doneNews : effectsAt d.dst done <+: undoneNews.map .addRoute :=
      undoneAt ▸ doneUndone.filter _
    obtain ⟨filled, _, doneAt⟩ := prefix_map_iff.mp doneNews
    have inverses : (undoneNews.map Effect.addRoute).reverse.map inverse =
        undoneNews.reverse.map .delRoute := by
      simp [inverse, Function.comp_def]
    -- the destination is taken, so the adds do nothing and only deletes are left
    rw [at_dst, doneAt, undoneAt, inverses, filterMap_append, filterMap_slotOp_add,
      filterMap_slotOp_del, found, run_append, run_fill, run_clear, Option.some_or,
      Option.filter_eq_some_iff, all_eq_true] at back
    have here : .addRoute d ∈ effectsAt d.dst undone := by
      simp [effectsAt, Effect.dst, Effect.route, added]
    rw [undoneAt] at here
    obtain ⟨_, new, same⟩ := mem_map.mp here
    cases same
    simpa using back.2 d (mem_reverse.mpr new)
  · intro spares
    constructor
    · intro dst
      rw [at_dst]
      refine restores_at one holds (fun d added => spares d (mem_of_mem_filter added)) ?_
        (within_at dst)
      exact doneUndone.filter _
    · intro key
      rw [← Kernel.run_append, Kernel.find_rule_run, ruleEffectsAt_append,
        ruleEffectsAt_reverse_inverse]
      apply restores_rule_at holds
      · exact doneUndone.filter _
      · rw [← reconcile_ruleEffectsAt one.nodup_key]
        exact within.filter _

end Restore

/-! ### A plan reaches the desired state -/

section Reach

variable {k : Kernel} {desired actual : List ManagedRoute}
  {desiredRules actualRules : List ManagedRule} {platform : String}

/-- The kernel holds exactly the desired routes and rules, and what it held at
destinations neither set uses. -/
structure Reached (after before : Kernel) (desired actual : List ManagedRoute)
    (desiredRules actualRules : List ManagedRule) : Prop where
  routes : ∀ d ∈ desired, ∃ r ∈ desired ++ actual, r.key = d.key ∧
    after.routes.find d.dst = some (installed r)
  gone : ∀ a ∈ actual, a.dst ∉ desired.map ManagedRoute.dst → after.routes.find a.dst = none
  elsewhere : ∀ dst, dst ∉ (desired ++ actual).map ManagedRoute.dst →
    after.routes.find dst = before.routes.find dst
  rules : ∀ d ∈ desiredRules, ∃ r ∈ desiredRules ++ actualRules,
    r.key = d.key ∧ after.rules.find d.key = some (installedRule r)
  noOtherRule : ∀ key, key ∉ desiredRules.map ManagedRule.key → after.rules.find key = none

theorem find_after_plan (one : OnePerDst actual) (dst : DstKey) :
    (k.run M (effects (reconcile desired actual desiredRules actualRules
        platform).ops)).routes.find dst =
      run (k.routes.find dst)
        ((oldsAt desired actual dst).map (fun a => .clear (M.takes a)) ++
          (newsAt desired actual dst).map fun d => .fill (installed d)) := by
  rw [Kernel.find_run, reconcile_effectsAt one.nodup_key,
    filterMap_append, filterMap_slotOp_del, filterMap_slotOp_add]

theorem oldsAt_eq_nil_of_kept (one : OnePerDst actual) {a : ManagedRoute}
    (member : a ∈ actual) (kept : a.key ∈ desired.map ManagedRoute.key) :
    oldsAt desired actual a.dst = [] := by
  rcases one.oldsAt desired a.dst with none | ⟨other, otherMember, here, gone, _⟩
  · exact none
  · rw [one.eq_of_dst otherMember member here] at gone
    exact absurd kept gone

theorem oldsAt_eq_singleton (one : OnePerDst actual) {a : ManagedRoute}
    (member : a ∈ actual) (gone : a.key ∉ desired.map ManagedRoute.key) :
    oldsAt desired actual a.dst = [a] :=
  one.filter_dst _ (mem_oldsAt.mpr ⟨member, rfl, gone⟩) fun _ otherMember =>
    dst_of_mem_oldsAt otherMember

variable {d : ManagedRoute}

theorem newsAt_eq_singleton (one : OnePerDst desired)
    (member : d ∈ desired) (absent : d.key ∉ actual.map ManagedRoute.key) :
    newsAt desired actual d.dst = [d] :=
  oldsAt_eq_singleton one member absent

theorem newsAt_eq_nil_of_present (one : OnePerDst desired)
    (member : d ∈ desired) (present : d.key ∈ actual.map ManagedRoute.key) :
    newsAt desired actual d.dst = [] :=
  oldsAt_eq_nil_of_kept one member present

theorem oldsAt_eq_nil_of_unused {dst : DstKey} (unused : dst ∉ actual.map ManagedRoute.dst) :
    oldsAt desired actual dst = [] := by
  rw [oldsAt, filter_eq_nil_iff]
  intro a member old
  obtain ⟨rfl, _⟩ := decide_eq_true_iff.mp old
  exact unused (mem_map_of_mem member)

theorem newsAt_eq_nil_of_undesired {dst : DstKey} (undesired : dst ∉ desired.map ManagedRoute.dst) :
    newsAt desired actual dst = [] :=
  oldsAt_eq_nil_of_unused undesired

theorem gone_of_new_at (one : OnePerDst desired) {a : ManagedRoute}
    (inDesired : d ∈ desired) (inActual : a ∈ actual) (here : a.dst = d.dst)
    (absent : d.key ∉ actual.map ManagedRoute.key) :
    a.key ∉ desired.map ManagedRoute.key := by
  intro kept
  obtain ⟨other, otherMember, same⟩ := mem_map.mp kept
  have otherDst : other.dst = d.dst := (ManagedRoute.dst_eq_of_key_eq same).trans here
  rw [one.eq_of_dst otherMember inDesired otherDst] at same
  exact absent (same ▸ mem_map_of_mem inActual)

theorem not_taken_of_new (one : OnePerDst desired) (inDesired : d ∈ desired)
    (absent : d.key ∉ actual.map ManagedRoute.key) (noOlds : oldsAt desired actual d.dst = []) :
    d.dst ∉ actual.map ManagedRoute.dst := by
  intro taken
  obtain ⟨a, inActual, here⟩ := mem_map.mp taken
  have gone := gone_of_new_at one inDesired inActual here absent
  have old : a ∈ oldsAt desired actual d.dst := mem_oldsAt.mpr ⟨inActual, here, gone⟩
  rw [noOlds] at old
  exact absurd old not_mem_nil

theorem reached_route (oneDesired : OnePerDst desired)
    (oneActual : OnePerDst actual) (holds : Holds k actual actualRules)
    (unoccupied : ∀ d ∈ desired, d.dst ∉ actual.map ManagedRoute.dst →
      k.routes.find d.dst = none) (member : d ∈ desired) :
    ∃ r ∈ desired ++ actual, r.key = d.key ∧
      (k.run M (effects (reconcile desired actual desiredRules actualRules
        platform).ops)).routes.find d.dst = some (installed r) := by
  rw [find_after_plan oneActual]
  by_cases present : d.key ∈ actual.map ManagedRoute.key
  · obtain ⟨a, inActual, same⟩ := mem_map.mp present
    have here : a.dst = d.dst := ManagedRoute.dst_eq_of_key_eq same
    have kept : a.key ∈ desired.map ManagedRoute.key := same ▸ mem_map_of_mem member
    refine ⟨a, mem_append_right _ inActual, same, ?_⟩
    rw [newsAt_eq_nil_of_present oneDesired member present, ← here,
      oldsAt_eq_nil_of_kept oneActual inActual kept, holds.routes a inActual]
    rfl
  · refine ⟨d, mem_append_left _ member, rfl, ?_⟩
    rw [newsAt_eq_singleton oneDesired member present]
    by_cases taken : d.dst ∈ actual.map ManagedRoute.dst
    · obtain ⟨a, inActual, here⟩ := mem_map.mp taken
      have gone := gone_of_new_at oneDesired member inActual here present
      rw [← here, oldsAt_eq_singleton oneActual inActual gone, holds.routes a inActual]
      simp [act, Option.filter_some, M.takes_installed]
    · rw [oldsAt_eq_nil_of_unused taken, unoccupied d member taken]
      rfl

theorem find_rule_after_plan (one : OnePerDst actual) (key : RuleKey) :
    (k.run M (effects (reconcile desired actual desiredRules actualRules
        platform).ops)).rules.find key =
      run (k.rules.find key) ((newRulesAt desiredRules actualRules key).map
            (fun d => .fill (installedRule d)) ++
          (oldRulesAt desiredRules actualRules key).map fun _ => .clear fun _ => true) := by
  rw [Kernel.find_rule_run, reconcile_ruleEffectsAt one.nodup_key,
    filterMap_append, filterMap_ruleSlotOp_add, filterMap_ruleSlotOp_del]

variable {key : RuleKey}

theorem oldRulesAt_eq_nil_of_desired (desiredKey : key ∈ desiredRules.map ManagedRule.key) :
    oldRulesAt desiredRules actualRules key = [] := by
  rw [oldRulesAt, filter_eq_nil_iff]
  intro a _ old
  obtain ⟨rfl, undesired⟩ := decide_eq_true_iff.mp old
  exact undesired desiredKey

theorem newRulesAt_eq_nil_of_present (present : key ∈ actualRules.map ManagedRule.key) :
    newRulesAt desiredRules actualRules key = [] :=
  oldRulesAt_eq_nil_of_desired present

theorem oldRulesAt_eq_nil_of_unused (unused : key ∉ actualRules.map ManagedRule.key) :
    oldRulesAt desiredRules actualRules key = [] := by
  rw [oldRulesAt, filter_eq_nil_iff]
  intro a member old
  obtain ⟨rfl, _⟩ := decide_eq_true_iff.mp old
  exact unused (mem_map_of_mem member)

theorem reached_rule (one : OnePerDst actual) (holds : Holds k actual actualRules) {d : ManagedRule}
    (member : d ∈ desiredRules) :
    ∃ r ∈ desiredRules ++ actualRules, r.key = d.key ∧
      (k.run M (effects (reconcile desired actual desiredRules actualRules
        platform).ops)).rules.find d.key = some (installedRule r) := by
  rw [find_rule_after_plan one, oldRulesAt_eq_nil_of_desired (mem_map_of_mem member)]
  by_cases present : d.key ∈ actualRules.map ManagedRule.key
  · obtain ⟨a, inActual, same⟩ := mem_map.mp present
    refine ⟨a, mem_append_right _ inActual, same, ?_⟩
    rw [newRulesAt_eq_nil_of_present present, ← same, holds.rules a inActual]
    rfl
  · have new : d ∈ newRulesAt desiredRules actualRules d.key :=
      mem_newRulesAt.mpr ⟨member, rfl, present⟩
    cases news : newRulesAt desiredRules actualRules d.key with
    | nil => simp [news] at new
    | cons first rest =>
      obtain ⟨inDesired, same, _⟩ := mem_newRulesAt.mp
        (show first ∈ newRulesAt desiredRules actualRules d.key by simp [news])
      refine ⟨first, mem_append_left _ inDesired, same, ?_⟩
      rw [holds.onlyRules d.key present, map_nil, append_nil, run_fill]
      rfl

theorem reached_noOtherRule (one : OnePerDst actual) (holds : Holds k actual actualRules)
    (undesired : key ∉ desiredRules.map ManagedRule.key) :
    (k.run M (effects (reconcile desired actual desiredRules actualRules
      platform).ops)).rules.find key = none := by
  have noNews : newRulesAt desiredRules actualRules key = [] :=
    oldRulesAt_eq_nil_of_unused undesired
  rw [find_rule_after_plan one, noNews, map_nil, nil_append]
  by_cases present : key ∈ actualRules.map ManagedRule.key
  · obtain ⟨a, inActual, rfl⟩ := mem_map.mp present
    have old : a ∈ oldRulesAt desiredRules actualRules a.key :=
      mem_oldRulesAt.mpr ⟨inActual, rfl, undesired⟩
    rw [holds.rules a inActual, run_clear, Option.filter_some, if_neg]
    rw [all_eq_true]
    intro all
    exact absurd (all a old) (by simp)
  · rw [oldRulesAt_eq_nil_of_unused present, holds.onlyRules key present]
    rfl

theorem reached (oneDesired : OnePerDst desired)
    (oneActual : OnePerDst actual) (holds : Holds k actual actualRules)
    (unoccupied : ∀ d ∈ desired, d.dst ∉ actual.map ManagedRoute.dst → k.routes.find d.dst = none) :
    Reached (k.run M (effects (reconcile desired actual desiredRules
      actualRules platform).ops)) k desired actual desiredRules
      actualRules where
  routes d member := reached_route oneDesired oneActual holds unoccupied member
  gone a member undesired := by
    have gone : a.key ∉ desired.map ManagedRoute.key := by
      intro kept
      obtain ⟨d, inDesired, same⟩ := mem_map.mp kept
      apply undesired
      exact ManagedRoute.dst_eq_of_key_eq same ▸ mem_map_of_mem inDesired
    rw [find_after_plan oneActual, newsAt_eq_nil_of_undesired undesired,
      oldsAt_eq_singleton oneActual member gone, holds.routes a member]
    simp [act, Option.filter_some, M.takes_installed]
  elsewhere dst unused := by
    rw [map_append, mem_append, not_or] at unused
    rw [find_after_plan oneActual, newsAt_eq_nil_of_undesired unused.1,
      oldsAt_eq_nil_of_unused unused.2]
    rfl
  rules d member := reached_rule oneActual holds member
  noOtherRule key undesired := reached_noOtherRule oneActual holds undesired

end Reach

/-! ### Executing a plan -/

-- A destination whose next hop changes, beside a foreign default route.
namespace NextHopChange

def old : ManagedRoute :=
  { route :=
      { dstCIDR := "10.0.0.0/8", gateway := "192.168.1.1", iface := "eth0" }
    profileID := "work" }

def new : ManagedRoute :=
  { route :=
      { dstCIDR := "10.0.0.0/8", gateway := "192.168.2.1", iface := "eth1" }
    profileID := "work" }

def foreignDefault : Route :=
  { dstCIDR := "0.0.0.0/0", gateway := "192.168.1.1", iface := "eth0"
    owner := .system, proto := "dhcp" }

def kernel : Kernel where
  routes := ⟨[foreignDefault, installed old], by decide⟩
  rules := .empty

theorem holds : Holds kernel [old] [] where
  routes := by decide
  rules := by decide
  onlyRules := fun _ _ => rfl

theorem managedState : ManagedState kernel [old] [] where
  toHolds := holds
  onlyRoutes := by
    intro dst entry found elsewhere
    have member := KeyedTable.mem_of_find found
    simp only [kernel, mem_cons, not_mem_nil, or_false] at member
    rcases member with rfl | rfl
    · decide
    · have keyEq := KeyedTable.key_of_find found
      exact absurd (keyEq ▸ mem_singleton_self _) elsewhere

end NextHopChange

section Execute

variable {k : Kernel} {desired actual : List ManagedRoute}
  {desiredRules actualRules : List ManagedRule} {platform : String}

theorem reconcile_wellFormed (one : OnePerDst actual) :
    ∀ op ∈ (reconcile desired actual desiredRules actualRules platform).ops, op.effect.isSome :=
  fun _ member => reconcile_effect_isSome one.nodup_key member

theorem effects_reconcile_inverse : effects (reconcile desired actual desiredRules actualRules
        platform).inverse =
      (effects (reconcile desired actual desiredRules actualRules
        platform).ops).reverse.map inverse :=
  effects_invert _ platform

theorem spares_of_unoccupied (oneDesired : OnePerDst desired) (oneActual : OnePerDst actual)
    (unoccupied : ∀ d ∈ desired, d.dst ∉ actual.map ManagedRoute.dst →
      k.routes.find d.dst = none) :
    Spares M k desired actual
      (effects (reconcile desired actual desiredRules actualRules platform).ops) := by
  intro d added noOlds entry found
  obtain ⟨member, absent⟩ := (addRoute_mem_reconcile oneActual.nodup_key).mp added
  rw [unoccupied d member (not_taken_of_new oneDesired member absent noOlds)] at found
  exact absurd found (by simp)

/-- Executing a reconcile plan leaves exactly the desired routes and rules
beside the foreign routes, and executing its inverse then gives the starting
kernel back. -/
theorem reconcile_reaches_desired_and_back (oneDesired : OnePerDst desired)
    (oneActual : OnePerDst actual) (holds : Holds k actual actualRules)
    (unoccupied : ∀ d ∈ desired, d.dst ∉ actual.map ManagedRoute.dst → k.routes.find d.dst = none) :
    let plan := reconcile desired actual desiredRules actualRules platform
    let executed := Executor.apply M noFaults plan k
    executed.1 = none ∧ Reached executed.2.kernel k desired actual desiredRules actualRules ∧
      (Executor.runOps M noFaults plan.inverse executed.2).2.kernel.Same k := by
  intro plan executed
  have ok : executed = (none, { kernel := k.run M (effects plan.ops)
                                tried := plan.ops.length }) :=
    Executor.apply_ok (reconcile_wellFormed oneActual)
  rw [ok]
  refine ⟨rfl, reached oneDesired oneActual holds unoccupied, ?_⟩
  rw [Executor.runOps_noFaults, effects_reconcile_inverse]
  exact (restores_iff oneActual holds (prefix_refl _) (prefix_refl _)).mpr
    (spares_of_unoccupied oneDesired oneActual unoccupied)

theorem nextHopChange_reaches_desired_and_back :
    let plan := reconcile [NextHopChange.new] [NextHopChange.old] [] [] "linux"
    let executed := Executor.apply Matching.exact noFaults plan NextHopChange.kernel
    executed.1 = none ∧ Reached executed.2.kernel NextHopChange.kernel [NextHopChange.new]
        [NextHopChange.old] [] [] ∧
      (Executor.runOps Matching.exact noFaults plan.inverse
        executed.2).2.kernel.Same NextHopChange.kernel :=
  reconcile_reaches_desired_and_back (by decide) (by decide) NextHopChange.holds (by decide)

-- The route to add is there already, another program's.
namespace ForeignTwin

def other : ManagedRoute :=
  { route := { dstCIDR := "10.9.0.0/16", gateway := "192.168.1.1", iface := "eth0" }
    profileID := "work" }

def kernel : Kernel where
  routes := ⟨[{ NextHopChange.old.route with owner := .system, proto := "static" }], by decide⟩
  rules := .empty

theorem managedState : ManagedState kernel [] [] where
  routes := by decide
  rules := by decide
  onlyRules := fun _ _ => rfl
  onlyRoutes := by
    intro dst entry found _
    obtain rfl := mem_singleton.mp (KeyedTable.mem_of_find found)
    decide

end ForeignTwin

end Execute

end RiftRoute
