/-
Module: RiftRoute.Safety.Rollback
Purpose: The rollback of a transaction on probation.  The inverse is replayed
  operation by operation, the ownership table follows each operation that
  goes through, and what fails is kept as a plan of its own for a retry.
Trusted boundary: human-reviewed spec
-/
import RiftRoute.Safety.Recovery
import RiftRoute.Library.Folds

namespace RiftRoute

open List

/-- What a rollback has done so far. -/
structure RollBack where
  host : Host
  owned : Ownership
  /-- The inverse operations that failed. -/
  left : List PlanOp := []
  err : Option String := none

namespace RollBack

variable (M : Matching) (faults : Faults) (ownership : Bool)

/-- Try one inverse operation. -/
def step (s : RollBack) (op : PlanOp) : RollBack :=
  match s.host.doOp M faults op with
  | (some e, host) =>
    { s with host := host, left := s.left ++ [op], err := s.err.or (some e) }
  | (none, host) =>
    { s with
      host := host
      owned := if ownership then recordOwnership s.owned op else s.owned }

end RollBack

/-- Replay a transaction's inverse, less the re-adds of tunnel on-link
routes. -/
def rollBack (M : Matching) (faults : Faults) (plan : Plan) (ownership : Bool)
    (kernel : Kernel) (owned : Ownership) : RollBack :=
  (withoutTunnelLinks plan.inverse).foldl (RollBack.step M faults ownership)
    { host := { kernel := kernel }, owned := owned }

/-- What failed, as a plan whose inverse still undoes it. -/
def leftPlan (left : List PlanOp) : Plan := { ops := left.reverse.map inverseOp, inverse := left }

/-- The rollback branch of `resolve`: a complete rollback clears the journal
entry, an incomplete one narrows it to what failed. -/
def resolveRollback (M : Matching) (faults : Faults) (id : String)
    (plan : Plan) (ownership : Bool) (w : World) : World :=
  let result := rollBack M faults plan ownership w.kernel w.owned
  { kernel := result.host.kernel
    owned := result.owned
    journal :=
      if result.err.isSome then w.journal.putPendingTx id (leftPlan result.left)
      else w.journal.clearPendingTx id }

variable {M : Matching} {faults : Faults}

theorem RollBack.foldl_splits (faults : Faults) (ops : List PlanOp) (s : RollBack) :
    ∃ done left, Splits ops done left ∧ (ops.foldl (RollBack.step M faults true) s).host.kernel =
        s.host.kernel.run M (effects done) ∧
      (ops.foldl (RollBack.step M faults true) s).owned = s.owned.record (effects done) ∧
      (ops.foldl (RollBack.step M faults true) s).left = s.left ++ left ∧
      ((ops.foldl (RollBack.step M faults true) s).err.isSome ↔ s.err.isSome ∨ left ≠ []) := by
  induction ops generalizing s with
  | nil => exact ⟨[], [], .nil, rfl, rfl, by simp, by simp⟩
  | cons op ops ih =>
    obtain ⟨done, left, splits, kernel, owned, kept, failed⟩ := ih (s.step M faults true op)
    rw [foldl_cons, kernel, owned, kept, failed]
    cases outcome : doOp M (faults s.host.tried) s.host.kernel op with
    | error e =>
      have stepped : s.step M faults true op =
          { s with
            host := { s.host with tried := s.host.tried + 1 }
            left := s.left ++ [op], err := s.err.or (some e) } := by
        simp [RollBack.step, Host.doOp, outcome]
      rw [stepped]
      refine ⟨done, op :: left, .left op splits, rfl, rfl, by simp, ?_⟩
      cases s.err <;> simp
    | ok k =>
      obtain ⟨e, effect, rfl⟩ := doOp_ok outcome
      have stepped : s.step M faults true op =
          { s with
            host := { kernel := s.host.kernel.apply M e
                      tried := s.host.tried + 1 }
            owned := e.record s.owned } := by
        simp [RollBack.step, Host.doOp, outcome, recordOwnership_eq, effect]
      have split : effects (op :: done) = e :: effects done := by
        simp [effects, effect]
      rw [stepped]
      refine ⟨op :: done, left, .done op splits, ?_, ?_, rfl, Iff.rfl⟩
      · rw [split]
        rfl
      · rw [split]
        rfl

/-! ### One destination's rollback -/

/-- A destination's share of a rollback: its new routes are deleted and its
old ones put back, tunnel on-link routes excepted. -/
def rollbackAt (desired actual : List ManagedRoute) (dst : DstKey) : List Effect :=
  (newsAt desired actual dst).reverse.map .delRoute ++ ((oldsAt desired actual dst).reverse.filter
      fun a => !a.isTunnelLink).map .addRoute

def LinkDeleted (desired actual : List ManagedRoute) (dst : DstKey) : Prop :=
  ∃ a ∈ oldsAt desired actual dst, a.isTunnelLink

/-- Where the delete of a new route failed, the re-add of the route it
replaced failed too. -/
def ReplacementsPaired (undone left : List Effect) : Prop :=
  ∀ d a, .delRoute d ∈ left → .addRoute a ∈ undone → a.dst = d.dst → .addRoute a ∈ left

section Shares

variable {k : Kernel} {desired actual : List ManagedRoute}
  {desiredRules actualRules : List ManagedRule} {platform : String}

theorem rollback_effectsAt (one : OnePerDst actual) (dst : DstKey) :
    effectsAt dst (effects (withoutTunnelLinks (reconcile desired actual
        desiredRules actualRules platform).inverse)) =
      rollbackAt desired actual dst := by
  have commute : ∀ es : List Effect, effectsAt dst (es.filter fun e => !e.isTunnelLinkAdd) =
        (effectsAt dst es).filter fun e => !e.isTunnelLinkAdd := by
    intro es
    rw [effectsAt, effectsAt, filter_filter, filter_filter]
    congr 1
    funext e
    exact Bool.and_comm _ _
  rw [effects_withoutTunnelLinks, commute, effects_reconcile_inverse,
    effectsAt_reverse_inverse, reconcile_effectsAt one.nodup_key]
  rw [reverse_append, map_append, filter_append,
    ← map_reverse, ← map_reverse, map_map, map_map,
    filter_map, filter_map]
  have dels : (newsAt desired actual dst).reverse.filter
      ((fun e => !e.isTunnelLinkAdd) ∘ Effect.inverse ∘ Effect.addRoute) =
        (newsAt desired actual dst).reverse := by
    rw [filter_eq_self]
    intro d _
    rfl
  rw [dels]
  rfl

/-- What a destination of the plan can look like before it. -/
inductive DstCase (k : Kernel) (desired actual : List ManagedRoute)
    (dst : DstKey) : Prop where
  | unused (noOlds : oldsAt desired actual dst = [])
      (noNews : newsAt desired actual dst = [])
  | added (d : ManagedRoute) (noOlds : oldsAt desired actual dst = [])
      (news : newsAt desired actual dst = [d]) (inDesired : d ∈ desired)
      (absent : d.key ∉ actual.map ManagedRoute.key)
      (foreign : ∀ entry ∈ k.routes.find dst, entry.owner ≠ .riftRoute)
  | removed (a : ManagedRoute) (olds : oldsAt desired actual dst = [a])
      (noNews : newsAt desired actual dst = [])
      (held : k.routes.find dst = some (installed a))
  | replaced (a d : ManagedRoute) (olds : oldsAt desired actual dst = [a])
      (news : newsAt desired actual dst = [d])
      (held : k.routes.find dst = some (installed a))
      (sameDst : a.dst = d.dst) (differ : d.key ≠ a.key)

theorem dstCase (oneDesired : OnePerDst desired) (oneActual : OnePerDst actual)
    (state : ManagedState k actual actualRules) (dst : DstKey) :
    DstCase k desired actual dst := by
  rcases oneActual.oldsAt desired dst with
    noOlds | ⟨a, inActual, rfl, gone, olds⟩
  · rcases oneDesired.newsAt actual dst with
      noNews | ⟨d, inDesired, rfl, absent, news⟩
    · exact .unused noOlds noNews
    · refine .added d noOlds news inDesired absent ?_
      intro entry found
      exact state.onlyRoutes d.dst entry found
        (not_taken_of_new oneDesired inDesired absent noOlds)
  · rcases oneDesired.newsAt actual a.dst with
      noNews | ⟨d, inDesired, here, absent, news⟩
    · exact .removed a olds noNews (state.routes a inActual)
    · refine .replaced a d olds news (state.routes a inActual) here.symm ?_
      intro same
      exact absent (same ▸ mem_map_of_mem inActual)

theorem rollbackAt_of_old {dst : DstKey} {a : ManagedRoute}
    (olds : oldsAt desired actual dst = [a]) :
    rollbackAt desired actual dst = (newsAt desired actual dst).reverse.map .delRoute ++
        if a.isTunnelLink then [] else [.addRoute a] := by
  rw [rollbackAt, olds]
  cases link : a.isTunnelLink <;> simp [link]

variable {M : Matching}

@[simp] theorem takes_own (r : ManagedRoute) :
    SlotOp.act (.clear (M.takes r)) (some (installed r)) = none := by
  simp [SlotOp.act, Option.filter_some, M.takes_installed]

theorem add_del_foreign {d : ManagedRoute} {slot : Option Route}
    (foreign : ∀ entry ∈ slot, entry.owner ≠ .riftRoute)
    (spared : ∀ entry ∈ slot, entry.owner ≠ .riftRoute → M.takes d entry = false) :
    SlotOp.run slot [.fill (installed d), .clear (M.takes d)] = slot := by
  cases slot with
  | none => exact takes_own d
  | some entry =>
    have kept := spared entry rfl (foreign entry rfl)
    simp [SlotOp.run, SlotOp.act, Option.filter_some, kept]

section AtDst

variable {dst : DstKey} (dstIs : DstCase k desired actual dst)
  (spared : ∀ d ∈ newsAt desired actual dst, ∀ entry ∈ k.routes.find dst,
    entry.owner ≠ .riftRoute → M.takes d entry = false) {done left : List Effect}
  (splits : Splits (rollbackAt desired actual dst) done left)
  (paired : ReplacementsPaired (rollbackAt desired actual dst) left)

include splits paired in
theorem undone_of_replaced {a d : ManagedRoute} (olds : oldsAt desired actual dst = [a])
    (news : newsAt desired actual dst = [d]) (sameDst : a.dst = d.dst) :
    done ++ left = rollbackAt desired actual dst := by
  rw [rollbackAt_of_old olds, news] at splits paired ⊢
  by_cases link : a.isTunnelLink
  · rw [if_pos link] at splits ⊢
    rcases splits.singleton_cases with ⟨rfl, rfl⟩ | ⟨rfl, rfl⟩ <;> rfl
  · rw [if_neg link] at splits paired ⊢
    rcases splits.pair_cases with
      ⟨rfl, rfl⟩ | ⟨rfl, rfl⟩ | ⟨rfl, rfl⟩ | ⟨rfl, rfl⟩
    · rfl
    · rfl
    · have failed := paired d a (by simp) (by simp) sameDst
      simp at failed
    · rfl

include dstIs spared splits paired

theorem retried_at :
    let retried := SlotOp.run (k.routes.find dst)
      (((oldsAt desired actual dst).map Effect.delRoute ++
        (newsAt desired actual dst).map Effect.addRoute ++
          (done ++ left)).filterMap (Effect.slotOp M))
    (LinkDeleted desired actual dst → retried = none) ∧
      (¬ LinkDeleted desired actual dst → retried = k.routes.find dst) := by
  cases dstIs with
  | unused noOlds noNews =>
    rw [rollbackAt, noOlds, noNews] at splits
    obtain ⟨rfl, rfl⟩ := splits.nil_cases
    simp [LinkDeleted, noOlds, noNews]
  | added d noOlds news inDesired _ foreign =>
    rw [rollbackAt, noOlds, news] at splits
    have undone : done ++ left = [.delRoute d] := by
      rcases splits.singleton_cases with ⟨rfl, rfl⟩ | ⟨rfl, rfl⟩ <;> rfl
    rw [undone, noOlds, news]
    refine ⟨?_, fun _ => add_del_foreign foreign (spared d (by simp [news]))⟩
    rintro ⟨a, old, _⟩
    exact absurd (noOlds ▸ old) not_mem_nil
  | removed a olds noNews held =>
    rw [rollbackAt_of_old olds, noNews] at splits
    rw [LinkDeleted, olds, noNews, held]
    cases link : a.isTunnelLink with
    | true =>
      rw [link] at splits
      obtain ⟨rfl, rfl⟩ := splits.nil_cases
      simp [Effect.slotOp, link]
    | false =>
      rw [link] at splits
      have undone : done ++ left = [.addRoute a] := by
        rcases splits.singleton_cases with ⟨rfl, rfl⟩ | ⟨rfl, rfl⟩ <;> rfl
      simp [undone, Effect.slotOp, link]
  | replaced a d olds news held sameDst _ =>
    rw [undone_of_replaced splits paired olds news sameDst,
      rollbackAt_of_old olds, LinkDeleted, olds, news, held]
    cases link : a.isTunnelLink <;> simp [Effect.slotOp, link]

theorem kernel_at_new {d : ManagedRoute} (new : d ∈ newsAt desired actual dst)
    (free : .delRoute d ∈ left → oldsAt desired actual dst = [] → k.routes.find dst = none) :
    let content := SlotOp.run (k.routes.find dst)
      (((oldsAt desired actual dst).map Effect.delRoute ++
        (newsAt desired actual dst).map Effect.addRoute ++ done).filterMap (Effect.slotOp M))
    (.delRoute d ∉ done ∧ content = some (installed d)) ∨ (.delRoute d ∈ done ∧ ∀ entry ∈ content,
        entry.owner = .riftRoute → routeKey entry ≠ d.key) := by
  cases dstIs with
  | unused _ noNews | removed _ _ noNews _ => exact absurd (noNews ▸ new) not_mem_nil
  | added d' noOlds news inDesired _ foreign =>
    obtain rfl : d = d' := mem_singleton.mp (news ▸ new)
    rw [rollbackAt, noOlds, news] at splits
    rw [noOlds, news]
    rcases splits.singleton_cases with ⟨rfl, rfl⟩ | ⟨rfl, rfl⟩
    · refine .inr ⟨by simp, ?_⟩
      have restored := add_del_foreign foreign (spared d new)
      intro entry found ours
      exact absurd ours (foreign entry (restored ▸ found))
    · refine .inl ⟨by simp, ?_⟩
      rw [free (by simp) noOlds]
      rfl
  | replaced a d' olds news held sameDst differ =>
    obtain rfl : d = d' := mem_singleton.mp (news ▸ new)
    rw [rollbackAt_of_old olds, news] at splits paired
    rw [olds, news, held]
    cases link : a.isTunnelLink with
    | true =>
      rw [link] at splits
      rcases splits.singleton_cases with ⟨rfl, rfl⟩ | ⟨rfl, rfl⟩ <;>
        simp [Effect.slotOp]
    | false =>
      rw [link] at splits paired
      rcases splits.pair_cases with
        ⟨rfl, rfl⟩ | ⟨rfl, rfl⟩ | ⟨rfl, rfl⟩ | ⟨rfl, rfl⟩
      · simp [Effect.slotOp, differ.symm]
      · simp [Effect.slotOp]
      · have failed := paired d a (by simp) (by simp) sameDst
        simp at failed
      · simp [Effect.slotOp]

omit spared in
theorem kernel_at_old {a : ManagedRoute} (old : a ∈ oldsAt desired actual dst) :
    let content := SlotOp.run (k.routes.find dst)
      (((oldsAt desired actual dst).map Effect.delRoute ++
        (newsAt desired actual dst).map Effect.addRoute ++ done).filterMap (Effect.slotOp M))
    (.addRoute a ∈ done ∧ content = some (installed a)) ∨
      (.addRoute a ∉ done ∧ ∀ entry ∈ content, routeKey entry ≠ a.key) := by
  cases dstIs with
  | unused noOlds _ | added _ noOlds _ _ _ _ => exact absurd (noOlds ▸ old) not_mem_nil
  | removed a' olds noNews held =>
    obtain rfl : a = a' := mem_singleton.mp (olds ▸ old)
    rw [rollbackAt_of_old olds, noNews] at splits
    rw [olds, noNews, held]
    cases link : a.isTunnelLink with
    | true =>
      rw [link] at splits
      obtain ⟨rfl, rfl⟩ := splits.nil_cases
      simp [Effect.slotOp]
    | false =>
      rw [link] at splits
      rcases splits.singleton_cases with ⟨rfl, rfl⟩ | ⟨rfl, rfl⟩ <;>
        simp [Effect.slotOp]
  | replaced a' d olds news held sameDst differ =>
    obtain rfl : a = a' := mem_singleton.mp (olds ▸ old)
    rw [rollbackAt_of_old olds, news] at splits paired
    rw [olds, news, held]
    cases link : a.isTunnelLink with
    | true =>
      rw [link] at splits
      rcases splits.singleton_cases with ⟨rfl, rfl⟩ | ⟨rfl, rfl⟩ <;>
        simp [Effect.slotOp, differ]
    | false =>
      rw [link] at splits paired
      rcases splits.pair_cases with
        ⟨rfl, rfl⟩ | ⟨rfl, rfl⟩ | ⟨rfl, rfl⟩ | ⟨rfl, rfl⟩
      · simp [Effect.slotOp]
      · simp [Effect.slotOp]
      · have failed := paired d a (by simp) (by simp) sameDst
        simp at failed
      · simp [Effect.slotOp, differ]

end AtDst

/-! ### One rule's rollback -/

theorem rollback_ruleEffectsAt (one : OnePerDst actual) (key : RuleKey) :
    ruleEffectsAt key (effects (withoutTunnelLinks (reconcile desired actual
        desiredRules actualRules platform).inverse)) =
      (oldRulesAt desiredRules actualRules key).reverse.map .addRule ++
        (newRulesAt desiredRules actualRules key).reverse.map .delRule := by
  have unfiltered : ∀ es : List Effect, ruleEffectsAt key (es.filter fun e => !e.isTunnelLinkAdd) =
        ruleEffectsAt key es := by
    intro es
    rw [ruleEffectsAt, ruleEffectsAt, filter_filter]
    congr 1
    funext e
    cases e <;> simp [Effect.ruleKey, Effect.rule, Effect.isTunnelLinkAdd]
  rw [effects_withoutTunnelLinks, unfiltered, effects_reconcile_inverse,
    ruleEffectsAt_reverse_inverse, reconcile_ruleEffectsAt one.nodup_key]
  simp [Effect.inverse, Function.comp_def]

theorem retried_rule_at (holds : Holds k actual actualRules) {key : RuleKey}
    {done left : List Effect}
    (splits : Splits ((oldRulesAt desiredRules actualRules key).reverse.map .addRule ++
        (newRulesAt desiredRules actualRules key).reverse.map .delRule)
      done left) :
    SlotOp.run (k.rules.find key) (((newRulesAt desiredRules actualRules key).map Effect.addRule ++
        (oldRulesAt desiredRules actualRules key).map Effect.delRule ++
          (done ++ left)).filterMap Effect.ruleSlotOp) =
      k.rules.find key := by
  rcases newRulesAt_eq_nil_or_oldRulesAt_eq_nil desiredRules actualRules key with noNews | noOlds
  · rw [noNews, reverse_nil, map_nil, append_nil] at splits
    obtain ⟨doneOlds, leftOlds, parts, rfl, rfl⟩ := splits.of_map
    rw [noNews, map_nil, nil_append, ← map_append]
    refine deleted_rules_back holds
      (fun r undone => mem_reverse.mp (parts.perm.mem_iff.mp undone)) ?_
    intro none
    have empty := parts.perm
    rwa [none, nil_perm, reverse_eq_nil_iff] at empty
  · rw [noOlds, reverse_nil, map_nil, nil_append] at splits
    obtain ⟨doneNews, leftNews, parts, rfl, rfl⟩ := splits.of_map
    rw [noOlds, map_nil, append_nil, ← map_append]
    exact added_rules_back holds (fun r undone => mem_reverse.mp (parts.perm.mem_iff.mp undone))
      fun r new => parts.perm.mem_iff.mpr (mem_reverse.mpr new)

/-! ### One ownership row's rollback -/

def Plan.routes (plan : Plan) : List ManagedRoute := (effects plan.ops).filterMap Effect.route

/-- No two routes of different identity share a row of the ownership table. -/
def RowsApart (rs : List ManagedRoute) : Prop :=
  ∀ x ∈ rs, ∀ y ∈ rs, ownKey x = ownKey y → x.key = y.key

instance (rs : List ManagedRoute) : Decidable (RowsApart rs) :=
  inferInstanceAs (Decidable (∀ x ∈ rs, ∀ y ∈ rs, _))

theorem mem_routes_of_mem {plan : Plan} {e : Effect} {r : ManagedRoute}
    (member : e ∈ effects plan.ops) (here : e.route = some r) :
    r ∈ plan.routes :=
  mem_filterMap.mpr ⟨e, member, here⟩

theorem eq_of_row_eq (oneDesired : OnePerDst desired)
    (oneActual : OnePerDst actual) (apart : RowsApart
      (reconcile desired actual desiredRules actualRules platform).routes)
    {first second : Effect} {row : OwnKey}
    (firstMember : first ∈ effects (reconcile desired actual desiredRules actualRules platform).ops)
    (secondMember : second ∈ effects
      (reconcile desired actual desiredRules actualRules platform).ops)
    (firstRow : first.row = some row) (secondRow : second.row = some row) :
    first = second := by
  obtain ⟨x, xRoute, xRow⟩ := Option.map_eq_some_iff.mp firstRow
  obtain ⟨y, yRoute, yRow⟩ := Option.map_eq_some_iff.mp secondRow
  have same : x.key = y.key :=
    apart x (mem_routes_of_mem firstMember xRoute) y
      (mem_routes_of_mem secondMember yRoute) (xRow.trans yRow.symm)
  have sameDst : x.dst = y.dst := ManagedRoute.dst_eq_of_key_eq same
  have added : ∀ {r}, .addRoute r ∈ effects (reconcile desired actual
      desiredRules actualRules platform).ops → r ∈ desired ∧ r.key ∉ actual.map ManagedRoute.key :=
    (addRoute_mem_reconcile oneActual.nodup_key).mp
  have deleted : ∀ {r}, .delRoute r ∈ effects (reconcile desired actual
      desiredRules actualRules platform).ops → r ∈ actual ∧ r.key ∉ desired.map ManagedRoute.key :=
    (delRoute_mem_reconcile oneActual.nodup_key).mp
  cases first with
  | addRule | delRule => exact absurd xRoute (by simp [Effect.route])
  | addRoute r =>
    obtain rfl : r = x := Option.some.inj xRoute
    cases second with
    | addRule | delRule => exact absurd yRoute (by simp [Effect.route])
    | addRoute s =>
      obtain rfl : s = y := Option.some.inj yRoute
      rw [oneDesired.eq_of_dst (added firstMember).1 (added secondMember).1 sameDst]
    | delRoute s =>
      obtain rfl : s = y := Option.some.inj yRoute
      refine absurd ?_ (added firstMember).2
      exact same ▸ mem_map_of_mem (deleted secondMember).1
  | delRoute r =>
    obtain rfl : r = x := Option.some.inj xRoute
    cases second with
    | addRule | delRule => exact absurd yRoute (by simp [Effect.route])
    | addRoute s =>
      obtain rfl : s = y := Option.some.inj yRoute
      refine absurd ?_ (deleted firstMember).2
      exact same ▸ mem_map_of_mem (added secondMember).1
    | delRoute s =>
      obtain rfl : s = y := Option.some.inj yRoute
      rw [oneActual.eq_of_dst (deleted firstMember).1 (deleted secondMember).1 sameDst]

theorem docAt_rolledBack {owned : Ownership} {es done : List Effect}
    {e : Effect} {row : OwnKey} (member : e ∈ es) (here : e.row = some row)
    (once : ∀ other ∈ es, other.row = some row → other = e)
    (undoes : ∀ other ∈ done, other.inverse ∈ es) :
    ((owned.record es).record done).docAt row =
      if e.inverse ∈ done then e.inverse.rowAfter else e.rowAfter := by
  have undo : ∀ other ∈ done, other.row = some row → other = e.inverse := by
    intro other otherMember otherRow
    have inverse := once other.inverse (undoes other otherMember)
      (by simpa [Effect.row] using otherRow)
    rw [← inverse, Effect.inverse_inverse]
  by_cases undone : e.inverse ∈ done
  · rw [if_pos undone]
    apply ownershipCells.view_run_of_agreed fun _ _ => rfl
    · intro other otherMember otherRow
      rw [undo other otherMember otherRow]
      rfl
    · exact ⟨e.inverse, undone, by simpa [ownershipCells, Effect.row] using here⟩
  · rw [if_neg undone]
    have untouched : ∀ other ∈ done, ownershipCells.cell other ≠ some row := by
      intro other otherMember otherRow
      exact undone (undo other otherMember otherRow ▸ otherMember)
    refine (ownershipCells.view_run_of_untouched untouched).trans ?_
    apply ownershipCells.view_run_of_agreed fun _ _ => rfl
    · intro other otherMember otherRow
      rw [once other otherMember otherRow]
      rfl
    · exact ⟨e, member, here⟩

/-! ### A rollback stays recoverable -/

/-- What a rollback guarantees: of the plan's routes, those recorded and those
in the kernel are the same, and retrying what failed gives the kernel back,
but for tunnels' on-link routes. -/
structure Recoverable (k : Kernel) (desired actual : List ManagedRoute)
    (plan : Plan) (after : World) (retried : Kernel) : Prop where
  installed : ∀ x ∈ plan.routes, x.key ∈ after.owned.listOwned.map ManagedRoute.key →
      after.kernel.routes.find x.dst = some (RiftRoute.installed x)
  recorded : ∀ x ∈ plan.routes, ∀ entry ∈ after.kernel.routes.find x.dst,
    entry.owner = .riftRoute → routeKey entry = x.key → x ∈ after.owned.listOwned
  links : ∀ dst, LinkDeleted desired actual dst → retried.routes.find dst = none
  routes : ∀ dst, ¬ LinkDeleted desired actual dst → retried.routes.find dst = k.routes.find dst
  rules : ∀ key, retried.rules.find key = k.rules.find key

theorem resolveRollback_journal (id : String) (plan : Plan) (w : World) :
    let left := (rollBack M faults plan true w.kernel w.owned).left
    (resolveRollback M faults id plan true w).journal.find id =
      if left = [] then none else some (Journal.entry id (leftPlan left)) := by
  intro left
  obtain ⟨_, failed, _, _, _, leftIs, err⟩ := RollBack.foldl_splits (M := M)
    faults (withoutTunnelLinks plan.inverse)
    { host := { kernel := w.kernel }, owned := w.owned }
  have errIff : (rollBack M faults plan true w.kernel w.owned).err.isSome ↔ left ≠ [] := by
    rw [rollBack, err]
    simp [left, rollBack, leftIs]
  simp only [resolveRollback]
  by_cases complete : left = []
  · have noErr : ¬ (rollBack M faults plan true w.kernel w.owned).err.isSome :=
      fun some => errIff.mp some complete
    rw [if_pos complete, if_neg noErr]
    simp
  · rw [if_neg complete, if_pos (errIff.mpr complete)]
    simp [left]

section Recover

variable (oneDesired : OnePerDst desired) (oneActual : OnePerDst actual)
  (state : ManagedState k actual actualRules)
  (spared : ∀ d ∈ desired, ∀ entry ∈ k.routes.find d.dst,
    entry.owner ≠ .riftRoute → M.takes d entry = false)
  {done left : List Effect}
  (splits : Splits (effects (withoutTunnelLinks (reconcile desired actual
    desiredRules actualRules platform).inverse)) done left)
  (paired : ReplacementsPaired (effects (withoutTunnelLinks (reconcile desired
    actual desiredRules actualRules platform).inverse)) left)

include oneActual in
theorem find_after_rollback (dst : DstKey) (undone : List Effect) :
    ((k.run M (effects (reconcile desired actual desiredRules actualRules
        platform).ops)).run M undone).routes.find dst =
      SlotOp.run (k.routes.find dst) (((oldsAt desired actual dst).map Effect.delRoute ++
          (newsAt desired actual dst).map Effect.addRoute ++
            effectsAt dst undone).filterMap (Effect.slotOp M)) := by
  rw [← Kernel.run_append, Kernel.find_run, effectsAt_append,
    reconcile_effectsAt oneActual.nodup_key]

include oneActual splits in
theorem splits_at (dst : DstKey) : Splits (rollbackAt desired actual dst) (effectsAt dst done)
      (effectsAt dst left) := by
  rw [← rollback_effectsAt oneActual]
  exact splits.filter _

include oneActual paired in
theorem paired_at (dst : DstKey) : ReplacementsPaired (rollbackAt desired actual dst)
      (effectsAt dst left) := by
  intro d a failed undone sameDst
  have share : effectsAt dst (effects (withoutTunnelLinks (reconcile desired
      actual desiredRules actualRules platform).inverse)) =
        rollbackAt desired actual dst := rollback_effectsAt oneActual dst
  rw [← share] at undone
  have here := (mem_filter.mp undone).2
  have atDst := paired d a (mem_of_mem_filter failed) (mem_of_mem_filter undone) sameDst
  exact mem_filter.mpr ⟨atDst, here⟩

include splits in
theorem inverse_mem_of_done {e : Effect} (member : e ∈ done) : e.inverse ∈ effects
      (reconcile desired actual desiredRules actualRules platform).ops := by
  have undone := splits.mem_iff.mpr (.inl member)
  rw [effects_withoutTunnelLinks, effects_reconcile_inverse] at undone
  obtain ⟨forward, forwardMember, rfl⟩ := mem_map.mp (mem_of_mem_filter undone)
  rw [Effect.inverse_inverse]
  exact mem_reverse.mp forwardMember

theorem mem_effectsAt {dst : DstKey} {e : Effect} {es : List Effect}
    (here : e.dst = some dst) : e ∈ effectsAt dst es ↔ e ∈ es := by
  simp [effectsAt, here]

include spared in
theorem spared_at (dst : DstKey) : ∀ d ∈ newsAt desired actual dst,
    ∀ entry ∈ k.routes.find dst, entry.owner ≠ .riftRoute → M.takes d entry = false := by
  intro d new
  obtain ⟨inDesired, rfl, _⟩ := mem_newsAt.mp new
  exact spared d inDesired

include oneDesired oneActual state spared splits paired in
theorem accounted (owned : Ownership) (apart : RowsApart
      (reconcile desired actual desiredRules actualRules platform).routes)
    (free : ∀ d, .delRoute d ∈ left → d.dst ∉ actual.map ManagedRoute.dst →
      k.routes.find d.dst = none) {x : ManagedRoute}
    (changed : x ∈ (reconcile desired actual desiredRules actualRules platform).routes) :
    let es := effects (reconcile desired actual desiredRules actualRules platform).ops
    let kernel := (k.run M es).run M done
    let recorded := (owned.record es).record done
    (recorded.docAt (ownKey x) = some x ∧ kernel.routes.find x.dst = some (installed x)) ∨
      (recorded.docAt (ownKey x) = none ∧
        ∀ entry ∈ kernel.routes.find x.dst, entry.owner = .riftRoute → routeKey entry ≠ x.key) := by
  intro es kernel recorded
  obtain ⟨e, member, route⟩ := mem_filterMap.mp changed
  have here : e.row = some (ownKey x) := by simp [Effect.row, route]
  have doc : recorded.docAt (ownKey x) =
      if e.inverse ∈ done then e.inverse.rowAfter else e.rowAfter :=
    docAt_rolledBack member here
      (fun other otherMember otherRow => eq_of_row_eq oneDesired oneActual apart
        otherMember member otherRow here)
      (fun other otherMember => inverse_mem_of_done splits otherMember)
  rw [doc, find_after_rollback oneActual]
  have atDst := dstCase oneDesired oneActual state x.dst
  have splitsAt := splits_at oneActual splits x.dst
  have pairedAt := paired_at oneActual paired x.dst
  cases e with
  | addRule | delRule => exact absurd route (by simp [Effect.route])
  | addRoute d =>
    obtain rfl : d = x := Option.some.inj route
    have new := (addRoute_mem_reconcile oneActual.nodup_key).mp member
    have freeAt : .delRoute d ∈ effectsAt d.dst left →
        oldsAt desired actual d.dst = [] → k.routes.find d.dst = none := by
      intro failed noOlds
      exact free d (mem_of_mem_filter failed) (not_taken_of_new oneDesired new.1 new.2 noOlds)
    rcases kernel_at_new (M := M) atDst (spared_at spared _) splitsAt pairedAt
      (mem_newsAt.mpr ⟨new.1, rfl, new.2⟩) freeAt with
      ⟨kept, content⟩ | ⟨undone, content⟩
    · rw [mem_effectsAt rfl] at kept
      exact .inl ⟨if_neg kept, content⟩
    · rw [mem_effectsAt rfl] at undone
      exact .inr ⟨if_pos undone, content⟩
  | delRoute a =>
    obtain rfl : a = x := Option.some.inj route
    have old := (delRoute_mem_reconcile oneActual.nodup_key).mp member
    rcases kernel_at_old (M := M) atDst splitsAt pairedAt (mem_oldsAt.mpr ⟨old.1, rfl, old.2⟩) with
      ⟨undone, content⟩ | ⟨kept, content⟩
    · rw [mem_effectsAt rfl] at undone
      exact .inl ⟨if_pos undone, content⟩
    · rw [mem_effectsAt rfl] at kept
      exact .inr ⟨if_neg kept, fun entry found _ => content entry found⟩

end Recover

end Shares

-- A tunnel's route into its own interface.
namespace TunnelLink

def link : ManagedRoute :=
  { route := { dstCIDR := "10.8.0.0/24", iface := "tun0" }
    profileID := "tunnel:home" }

def kernel : Kernel where
  routes := ⟨[installed link], by decide⟩
  rules := .empty

end TunnelLink

end RiftRoute
