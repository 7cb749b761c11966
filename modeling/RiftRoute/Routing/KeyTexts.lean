/-
Module: RiftRoute.Routing.KeyTexts
Purpose: The keys' texts identify what the keys identify.
Trusted boundary: none
Main exports: BarFree
-/
import RiftRoute.Routing.Keys

namespace RiftRoute

open List Texts

/-- No field holds the separator. -/
def BarFree (fields : List (List Char)) : Prop := ∀ field ∈ fields, '|' ∉ field

instance (fields : List (List Char)) : Decidable (BarFree fields) :=
  inferInstanceAs (Decidable (∀ field ∈ fields, '|' ∉ field))

theorem Family.elim_text_inj {first second : Option Family}
    (same : first.elim "" Family.text = second.elim "" Family.text) :
    first = second := by
  rcases first with _ | _ | _ <;> rcases second with _ | _ | _ <;>
    first | rfl | exact absurd same (by decide)

def RouteKey.fields (k : RouteKey) : List (List Char) :=
  [k.dst.family.text.toList, k.dst.table.toList, k.dst.dst.toList,
    k.gateway.toList, k.iface.toList] ++
    (if k.reject then ["reject".toList] else [])

theorem RouteKey.text_eq_joinOn (k : RouteKey) : k.text.toList = joinOn '|' k.fields := by
  cases reject : k.reject with
  | false | true => simp [RouteKey.text, DstKey.text, RouteKey.fields, reject, joinOn]

/-- Routes with one key text are of one identity, as long as no field holds a
bar. -/
theorem routeKey_eq_of_text_eq {first second : RouteKey}
    (firstFree : BarFree first.fields) (secondFree : BarFree second.fields)
    (same : first.text = second.text) : first = second := by
  have spelled : joinOn '|' first.fields = joinOn '|' second.fields := by
    rw [← RouteKey.text_eq_joinOn, ← RouteKey.text_eq_joinOn, same]
  have fields : first.fields = second.fields :=
    joinOn_injOn (cons_ne_nil _ _) (cons_ne_nil _ _) firstFree secondFree spelled
  obtain ⟨⟨_, _, _⟩, _, _, firstReject⟩ := first
  obtain ⟨⟨_, _, _⟩, _, _, secondReject⟩ := second
  simp only [RouteKey.fields, cons_append, nil_append,
    List.cons.injEq, String.toList_inj] at fields
  obtain ⟨family, table, dst, gateway, iface, suffix⟩ := fields
  have reject : firstReject = secondReject := by
    cases firstReject <;> cases secondReject <;> simp_all
  rw [Option.some.inj (Family.elim_text_inj family), table, dst, gateway, iface, reject]

theorem routeKey_of_text :
    ∃ k : RouteKey, BarFree k.fields ∧ ∀ other : RouteKey, BarFree other.fields →
      other.text = "v6||::/0||eth0|reject" → other = k :=
  ⟨⟨⟨.v6, "", "::/0"⟩, "", "eth0", true⟩, by decide, fun _ free same =>
    routeKey_eq_of_text_eq free (by decide) same⟩

def RuleKey.fields (k : RuleKey) : List (List Char) :=
  [k.priority.repr.toList, k.selector.toList, k.table.toList,
    (k.family.elim "" Family.text).toList] ++
    k.routeTo.elim [] fun target => [target.1.toList, target.2.toList]

theorem RuleKey.text_eq_joinOn (k : RuleKey) : k.text.toList = joinOn '|' k.fields := by
  cases routeTo : k.routeTo with
  | none | some => simp [RuleKey.text, RuleKey.fields, routeTo, joinOn]

theorem ruleKey_eq_of_text_eq {first second : RuleKey}
    (firstFree : BarFree first.fields) (secondFree : BarFree second.fields)
    (same : first.text = second.text) : first = second := by
  have spelled : joinOn '|' first.fields = joinOn '|' second.fields := by
    rw [← RuleKey.text_eq_joinOn, ← RuleKey.text_eq_joinOn, same]
  have fields : first.fields = second.fields :=
    joinOn_injOn (cons_ne_nil _ _) (cons_ne_nil _ _) firstFree secondFree spelled
  obtain ⟨_, _, _, _, firstRouteTo⟩ := first
  obtain ⟨_, _, _, _, secondRouteTo⟩ := second
  simp only [RuleKey.fields, cons_append, nil_append,
    List.cons.injEq, String.toList_inj] at fields
  obtain ⟨priority, selector, table, family, suffix⟩ := fields
  have routeTo : firstRouteTo = secondRouteTo := by
    cases firstRouteTo with
    | none => cases secondRouteTo <;> simp_all
    | some =>
      cases secondRouteTo with
      | none => simp at suffix
      | some =>
        simp only [Option.elim_some, List.cons.injEq, String.toList_inj] at suffix
        exact congrArg some (Prod.ext suffix.1 suffix.2.1)
  rw [intRepr_inj priority, selector, table, Family.elim_text_inj family, routeTo]

theorem ruleKey_of_text :
    ∃ k : RuleKey, BarFree k.fields ∧ ∀ other : RuleKey, BarFree other.fields →
      other.text = k.text → other = k :=
  ⟨⟨-5, "to ::/0", "", some .v6, some ("utun4", "")⟩, by decide, fun _ free same =>
    ruleKey_eq_of_text_eq free (by decide) same⟩

end RiftRoute
