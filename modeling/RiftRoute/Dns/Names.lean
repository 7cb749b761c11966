/-
Module: RiftRoute.Dns.Names
Purpose: The resolver cache under lookups and refreshes, and which wildcard
  rule the DNS proxy reports an answer for.
Trusted boundary: human-reviewed spec
Main exports: matchRule, observe
-/
import RiftRoute.Library.Machine
import Mathlib.Data.Finset.Dedup
import Mathlib.Logic.Function.Basic
import RiftRoute.Safety.Recovery

namespace RiftRoute.Dns

/-- A refresh under way: whether an answer changed, and the hosts it is done
with. -/
structure Refresh (H : Type) where
  changed : Bool := false
  done : List H := []

/-- The cached addresses and when each host's were stored, the lookups that wait
for an answer, and as history the addresses at the end of the last refresh. -/
structure Cache (H A : Type) where
  entries : H → List A := fun _ => []
  stored : H → Option Nat := fun _ => none
  asking : List H := []
  refresh : Option (Refresh H) := none
  last : Option (H → List A) := none

/-- A lookup looks for a fresh entry, and stores the answer it had to ask for; a
refresh begins, stores the answer for a host, and ends. -/
inductive Event (H A : Type)
  | lookup (host : H) (now : Nat)
  | answered (host : H) (answer : List A) (now : Nat)
  | start
  | resolved (host : H) (answer : List A) (now : Nat)
  | finish

section Caching

variable {H A : Type} [DecidableEq H] [LinearOrder A]

def sortAddrs (answer : List A) : List A := answer.insertionSort (· ≤ ·)

def Cache.store (c : Cache H A) (host : H) (answer : List A) (now : Nat) : Cache H A :=
  { c with
    entries := Function.update c.entries host (sortAddrs answer)
    stored := Function.update c.stored host (some now) }

def step (ttl : Nat) (hosts : List H) (c : Cache H A) : Event H A → Option (Cache H A)
  | .lookup host now =>
    if (c.stored host).any (now - · < ttl) then some c
    else some { c with asking := host :: c.asking }
  | .answered host answer now =>
    if host ∈ c.asking then
      some { c.store host answer now with asking := c.asking.erase host }
    else none
  | .start => if c.refresh = none then some { c with refresh := some {} } else none
  | .resolved host answer now =>
    match c.refresh with
    | none => none
    | some r =>
      if host ∈ hosts ∧ host ∉ r.done then
        some { c.store host answer now with
          refresh := some
            { changed := r.changed || c.entries host ≠ sortAddrs answer, done := host :: r.done } }
      else none
  | .finish =>
    match c.refresh with
    | none => none
    | some r =>
      if ∀ h ∈ hosts, h ∈ r.done then some { c with refresh := none, last := some c.entries }
      else none

def cache (ttl : Nat) (hosts : List H) : Machine (Cache H A) (Event H A) := ⟨step ttl hosts⟩

/-- Answers name an address once, and a lookup after the first refresh finds
what the entry holds. -/
def Quiet (hosts : List H) (c : Cache H A) : Event H A → Prop
  | .answered host answer _ => answer.Nodup ∧
      (host ∈ hosts → c.last ≠ none → sortAddrs answer = c.entries host)
  | .resolved _ answer _ => answer.Nodup
  | _ => True

/-- The entries are sorted without repetitions, and differ from those of the last
refresh where the one under way has noticed a change. -/
structure Noticed (hosts : List H) (c : Cache H A) : Prop where
  tidy : ∀ h, (c.entries h).SortedLT
  lastTidy : ∀ last, c.last = some last → ∀ h, (last h).SortedLT
  idle : ∀ last, c.last = some last → c.refresh = none → ∀ h ∈ hosts, c.entries h = last h
  noticed : ∀ last r, c.last = some last → c.refresh = some r →
    (r.changed = true ↔ ∃ h ∈ r.done, c.entries h ≠ last h) ∧ (∀ h ∈ r.done, h ∈ hosts) ∧
      ∀ h ∈ hosts, h ∉ r.done → c.entries h = last h

theorem sortedLT_sortAddrs {answer : List A} (once : answer.Nodup) : (sortAddrs answer).SortedLT :=
  List.sortedLE_insertionSort.sortedLT_of_nodup ((List.perm_insertionSort _ _).nodup_iff.mpr once)

variable {ttl : Nat} {hosts : List H} {c next : Cache H A}

theorem Noticed.step {e : Event H A} (noticed : Noticed hosts c) (quiet : Quiet hosts c e)
    (stepped : (cache ttl hosts).step c e = some next) : Noticed hosts next := by
  have tidied : ∀ {host answer}, List.Nodup answer → ∀ h,
      (Function.update c.entries host (sortAddrs answer) h).SortedLT := by
    intro host answer once h
    by_cases here : h = host
    · subst here
      rw [Function.update_self]
      exact sortedLT_sortAddrs once
    · rw [Function.update_of_ne here]
      exact noticed.tidy h
  cases e with
  | lookup host now =>
    simp only [cache, Dns.step] at stepped
    split at stepped
    all_goals
      obtain rfl := Option.some.inj stepped
      exact ⟨noticed.tidy, noticed.lastTidy, noticed.idle, noticed.noticed⟩
  | answered host answer now =>
    simp only [cache, Dns.step, Option.ite_none_right_eq_some, Option.some.injEq] at stepped
    obtain ⟨-, rfl⟩ := stepped
    have same : ∀ last, c.last = some last → ∀ h ∈ hosts,
        Function.update c.entries host (sortAddrs answer) h = c.entries h := by
      intro last had h listed
      by_cases here : h = host
      · subst here
        rw [Function.update_self]
        exact quiet.2 listed (by simp [had])
      · exact Function.update_of_ne here ..
    refine ⟨tidied quiet.1, noticed.lastTidy, fun last had idle h listed => ?_,
      fun last r had busy => ?_⟩
    · exact (same last had h listed).trans (noticed.idle last had idle h listed)
    · obtain ⟨changed, among, rest⟩ := noticed.noticed last r had busy
      refine ⟨changed.trans (exists_congr fun h => and_congr_right fun member => ?_), among,
        fun h listed waits => (same last had h listed).trans (rest h listed waits)⟩
      exact (congrArg (· ≠ last h) (same last had h (among h member))).symm.to_iff
  | start =>
    simp only [cache, Dns.step, Option.ite_none_right_eq_some, Option.some.injEq] at stepped
    obtain ⟨idle, rfl⟩ := stepped
    refine ⟨noticed.tidy, noticed.lastTidy, by simp, fun last r had busy => ?_⟩
    obtain rfl := Option.some.inj busy
    simpa using noticed.idle last had idle
  | resolved host answer now =>
    simp only [cache, Dns.step] at stepped
    split at stepped
    case h_1 => cases stepped
    case h_2 r busy =>
      simp only [Option.ite_none_right_eq_some, Option.some.injEq] at stepped
      obtain ⟨⟨listed, waits⟩, rfl⟩ := stepped
      refine ⟨tidied quiet, noticed.lastTidy, by simp, fun last r' had same => ?_⟩
      obtain rfl := Option.some.inj same
      obtain ⟨changed, among, rest⟩ := noticed.noticed last r had busy
      have others : ∀ h, h ≠ host →
          Function.update c.entries host (sortAddrs answer) h = c.entries h :=
        fun h apart => Function.update_of_ne apart ..
      refine ⟨?_, by simpa [listed] using among, fun h inHosts apart => ?_⟩
      · simp only [Bool.or_eq_true, changed, decide_eq_true_eq, List.mem_cons, exists_eq_or_imp,
          Cache.store, Function.update_self, rest host listed waits]
        rw [or_comm, ne_comm]
        refine or_congr_right (exists_congr fun h => and_congr_right fun member => ?_)
        rw [others h fun same => waits (same ▸ member)]
      · rw [List.mem_cons, not_or] at apart
        exact (others h apart.1).trans (rest h inHosts apart.2)
  | finish =>
    simp only [cache, Dns.step] at stepped
    split at stepped
    case h_1 => cases stepped
    case h_2 =>
      simp only [Option.ite_none_right_eq_some, Option.some.injEq] at stepped
      obtain ⟨-, rfl⟩ := stepped
      refine ⟨noticed.tidy, ?_, ?_, by simp⟩
      · intro last had
        obtain rfl := Option.some.inj had
        exact noticed.tidy
      · intro last had _ h _
        obtain rfl := Option.some.inj had
        rfl

/-- Where answers name an address once and no lookup changes an entry after the
first refresh, a refresh that can end has noticed a change exactly when some
host's addresses are not those at the end of the refresh before. -/
theorem refresh_notices (ttl : Nat) (hosts : List H) (es : List (Event H A)) {r : Refresh H}
    {last : H → List A}
    (ran : (cache ttl hosts).run {} es = some c)
    (quiet : (cache ttl hosts).Along (Quiet hosts) {} es)
    (busy : c.refresh = some r) (whole : ∀ h ∈ hosts, h ∈ r.done) (had : c.last = some last) :
    r.changed = true ↔ ∃ h ∈ hosts, (c.entries h).toFinset ≠ (last h).toFinset := by
  have noticed : Noticed hosts c := Machine.invariant (Noticed hosts)
    (fun _ _ _ held quiet stepped => held.step quiet stepped)
    ⟨fun _ => List.Pairwise.nil.sortedLT, by simp, by simp, by simp⟩ quiet ran
  obtain ⟨changed, among, -⟩ := noticed.noticed last r had busy
  rw [changed]
  refine exists_congr fun h => ⟨fun ⟨member, differ⟩ => ⟨among h member, fun same => differ ?_⟩,
    fun ⟨listed, differ⟩ => ⟨whole h listed, fun same => differ (by rw [same])⟩⟩
  refine (noticed.tidy h).eq_of_mem_iff (noticed.lastTidy last had h) fun a => ?_
  rw [← List.mem_toFinset, same, List.mem_toFinset]

end Caching

/-- A refresh, a change that a lookup stores first, and a refresh. -/
def missed : List (Event Unit Nat) :=
  [.start, .resolved () [1] 0, .finish, .lookup () 400, .answered () [2] 401,
    .start, .resolved () [2] 700]

theorem lookup_hides_change :
    ((cache 360 [()]).run {} missed).map (fun c =>
      (c.refresh.map Refresh.changed, c.entries (), c.last.map (· ()))) =
      some (some false, [2], some [1]) := by
  decide

def noticed : List (Event Unit Nat) :=
  [.start, .resolved () [1] 0, .finish, .lookup () 100, .start, .resolved () [2] 300]

theorem refresh_notices_new_answer :
    ((cache 360 [()]).run {} noticed).isSome ∧ ∀ c, (cache 360 [()]).run {} noticed = some c →
      ∀ r last, c.refresh = some r → c.last = some last →
        (r.changed = true ↔ ∃ h ∈ [()], (c.entries h).toFinset ≠ (last h).toFinset) := by
  refine ⟨by decide, fun c ran r last busy had =>
    refresh_notices 360 [()] noticed ran ?_ busy ?_ had⟩
  · simp [noticed, Machine.Along, Quiet]
  · obtain rfl := Option.some.inj ran
    obtain rfl := Option.some.inj busy
    decide

end RiftRoute.Dns

namespace RiftRoute.DnsProxy

open Netip (Addr)

/-- `strings.TrimSuffix` of a dot. -/
def trimDot (s : String) : String :=
  if s.toList.getLast? = some '.' then String.ofList s.toList.dropLast else s

def toLower (s : String) : String := String.ofList (s.toList.map Char.toLower)

/-- The domain a rule such as `*.example.com` is about, in lower case. -/
def apexOf (rule : String) : String := toLower (trimDot (trimPrefix rule "*."))

/-- The rules by their apexes; a later rule replaces one of the same apex. -/
def setWildcards (rules : List String) : KeyedTable apexOf :=
  (rules.filter fun r => apexOf r ≠ "").foldl KeyedTable.put .empty

def covers (name rule : String) : Bool :=
  name = apexOf rule ∨ ("." ++ apexOf rule).toList.isSuffixOf name.toList

/-- The first match of a walk through the map. -/
def matchRule (walk : List String) (name : String) : Option String := walk.find? (covers name)

/-- What the proxy reads of a response: the question, and the addresses of the
A and AAAA answers. -/
structure Response where
  question : String
  addrs : List Addr

def Response.name (resp : Response) : String := toLower (trimDot resp.question)

/-- What is reported to be learned: a rule, a name and its addresses. -/
def observe (walk : List String) (resp : Response) : Option (String × String × List Addr) :=
  if resp.addrs = [] then none
  else (matchRule walk resp.name).map fun rule => (rule, resp.name, resp.addrs)

theorem mem_foldl_put {rules : List String} :
    (∀ r ∈ (rules.foldl KeyedTable.put (.empty : KeyedTable apexOf)).rows, r ∈ rules) ∧
      ∀ r ∈ rules, ∃ kept ∈ (rules.foldl KeyedTable.put (.empty : KeyedTable apexOf)).rows,
        apexOf kept = apexOf r := by
  induction rules using List.reverseRecOn with
  | nil => simp [KeyedTable.empty]
  | append_singleton rules last ih =>
    obtain ⟨among, present⟩ := ih
    rw [List.foldl_append, List.foldl_cons, List.foldl_nil]
    simp only [KeyedTable.mem_put, List.mem_append, List.mem_singleton]
    constructor
    · rintro r (rfl | ⟨held, -⟩)
      · exact .inr rfl
      · exact .inl (among r held)
    · rintro r (before | rfl)
      · obtain ⟨kept, held, same⟩ := present r before
        by_cases replaced : apexOf kept = apexOf last
        · exact ⟨last, .inl rfl, replaced.symm.trans same⟩
        · exact ⟨kept, .inr ⟨held, replaced⟩, same⟩
      · exact ⟨r, .inl rfl, rfl⟩

/-- Whatever walk the map takes, a response with addresses is learned for every
rule that covers its name exactly when only one rule does. -/
theorem learned_for_every_rule_iff (rules : List String) (resp : Response)
    (answered : resp.addrs ≠ []) :
    (∀ walk, walk.Perm (setWildcards rules).rows → ∀ r ∈ rules, apexOf r ≠ "" →
      covers resp.name r = true → observe walk resp = some (r, resp.name, resp.addrs)) ↔
    ∀ first ∈ rules, ∀ second ∈ rules, apexOf first ≠ "" → apexOf second ≠ "" →
      covers resp.name first = true → covers resp.name second = true → first = second := by
  constructor
  · intro learned first inFirst second inSecond firstApex secondApex coversFirst coversSecond
    have one := learned _ (.refl _) first inFirst firstApex coversFirst
    have other := learned _ (.refl _) second inSecond secondApex coversSecond
    exact congrArg Prod.fst (Option.some.inj (one.symm.trans other))
  · intro single walk perm r listed apex covered
    obtain ⟨among, present⟩ := @mem_foldl_put (rules.filter fun r => apexOf r ≠ "")
    have mem_rules : ∀ {kept}, kept ∈ walk → kept ∈ rules ∧ apexOf kept ≠ "" := by
      intro kept walked
      simpa using among kept (perm.mem_iff.mp walked)
    obtain ⟨kept, held, same⟩ := present r (by simpa using ⟨listed, apex⟩)
    have reached : covers resp.name kept = true := by
      rw [covers, same]
      exact covered
    cases found : walk.find? (covers resp.name) with
    | none =>
      have missed := List.find?_eq_none.mp found kept (perm.mem_iff.mpr held)
      exact absurd reached missed
    | some rule =>
      obtain ⟨inRules, ruleApex⟩ := mem_rules (List.mem_of_find?_eq_some found)
      rw [observe, if_neg answered, matchRule, found,
        single rule inRules r listed ruleApex apex (List.find?_some found) covered]
      rfl

def nested : Response := ⟨"x.api.example.com.", [.v4 0xc0000201#32]⟩

/-- The narrower of two nested rules learns nothing of a name both cover. -/
theorem nested_rule_learns_nothing :
    observe (setWildcards ["*.example.com", "*.api.example.com"]).rows nested =
      some ("*.example.com", nested.name, nested.addrs) ∧
    covers nested.name "*.api.example.com" := by
  decide

theorem lone_rule_learns : nested.addrs ≠ [] ∧ ∀ walk,
    walk.Perm (setWildcards ["*.example.com", "*.example.org"]).rows →
    observe walk nested = some ("*.example.com", nested.name, nested.addrs) := by
  refine ⟨by decide, fun walk perm => ?_⟩
  exact (learned_for_every_rule_iff ["*.example.com", "*.example.org"] nested (by decide)).mpr
    (by decide) walk perm "*.example.com" (by decide) (by decide) (by decide)

end RiftRoute.DnsProxy
