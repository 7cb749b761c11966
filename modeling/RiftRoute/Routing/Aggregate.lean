/-
Module: RiftRoute.Routing.Aggregate
Purpose: Prefix aggregation: the result covers the addresses of the input and
  no others, is disjoint, and holds every block inside it in one prefix.
Trusted boundary: human-reviewed spec
-/
import Mathlib.Data.List.Pairwise
import Mathlib.Data.Prod.Lex
import RiftRoute.Library.Netip

namespace RiftRoute

open List

open Netip

/-- The order of `sortPrefixes`: v4 before v6, then by address, then the
shorter first. -/
def prefixLess (p q : Prefix) : Bool :=
  if p.addr.is4 ≠ q.addr.is4 then p.addr.is4
  else if p.addr.toNat ≠ q.addr.toNat then p.addr.toNat < q.addr.toNat
  else p.bits < q.bits

def sortPrefixes (ps : List Prefix) : List Prefix := ps.insertionSort fun p q => ¬ prefixLess q p

def dropCovered : List Prefix → List Prefix → List Prefix
  | kept, [] => kept
  | kept, p :: ps =>
    if kept.any fun q => q.covers p then dropCovered kept ps
    else dropCovered (kept ++ [p]) ps

/-- Two halves of one parent, as `mergeOnce` recognises them. -/
def mergeable (p q : Prefix) : Bool :=
  0 < p.bits ∧ p.bits = q.bits ∧ p.parent.contains p.addr ∧
    p.parent.contains q.addr ∧ p.addr ≠ q.addr

/-- The loop of `mergeOnce` over a sorted list; the flag says whether it
merged a pair. -/
def mergePairs : List Prefix → List Prefix × Bool
  | p :: q :: rest =>
    if mergeable p q then (p.parent :: (mergePairs rest).1, true)
    else
      let merged := mergePairs (q :: rest)
      (p :: merged.1, merged.2)
  | [p] => ([p], false)
  | [] => ([], false)

def mergeOnce (ps : List Prefix) : List Prefix × Bool := mergePairs (sortPrefixes ps)

/-- Merge until nothing changes.  Each round that changes something makes the
list shorter, so the length bounds the rounds. -/
def mergeAll : Nat → List Prefix → List Prefix
  | 0, ps => ps
  | rounds + 1, ps =>
    let merged := mergeOnce ps
    if merged.2 then mergeAll rounds merged.1 else merged.1

/-- `Aggregate`.  Every modelled prefix is valid, so none is left out for
being invalid. -/
def aggregate (ps : List Prefix) : List Prefix :=
  let kept := dropCovered [] (sortPrefixes (ps.map Prefix.masked))
  mergeAll (kept.length + 1) kept

/-! ### The order -/

/-- `prefixLess` as a lexicographic order. -/
def sortKey (p : Prefix) : ℕ ×ₗ ℕ ×ₗ ℕ := toLex (p.addr.is6.toNat, toLex (p.addr.toNat, p.bits))

theorem prefixLess_iff (p q : Prefix) : prefixLess p q ↔ sortKey p < sortKey q := by
  have family : p.addr.is4 = !p.addr.is6 := rfl
  have family' : q.addr.is4 = !q.addr.is6 := rfl
  rw [sortKey, sortKey, Prod.Lex.toLex_lt_toLex, Prod.Lex.toLex_lt_toLex,
    prefixLess, family, family']
  cases p.addr.is6 <;> cases q.addr.is6 <;>
    by_cases same : p.addr.toNat = q.addr.toNat <;> simp [same]

theorem not_prefixLess_iff (p q : Prefix) : ¬ prefixLess q p ↔ sortKey p ≤ sortKey q := by
  rw [prefixLess_iff, not_lt]

theorem perm_sortPrefixes (ps : List Prefix) : (sortPrefixes ps).Perm ps :=
  perm_insertionSort _ ps

variable {ps : List Prefix} {p : Prefix}

@[simp] theorem mem_sortPrefixes : p ∈ sortPrefixes ps ↔ p ∈ ps := (perm_sortPrefixes ps).mem_iff

theorem sorted_sortPrefixes (ps : List Prefix) :
    (sortPrefixes ps).Pairwise fun p q => sortKey p ≤ sortKey q := by
  have total : Std.Total fun p q : Prefix => ¬ prefixLess q p = true := by
    constructor
    intro p q
    rw [not_prefixLess_iff, not_prefixLess_iff]
    exact le_total _ _
  have trans : IsTrans Prefix fun p q => ¬ prefixLess q p = true := by
    constructor
    intro p q r
    rw [not_prefixLess_iff, not_prefixLess_iff, not_prefixLess_iff]
    exact le_trans
  refine (pairwise_insertionSort (fun p q => ¬ prefixLess q p = true) ps).imp ?_
  intro p q before
  exact (not_prefixLess_iff p q).mp before

/-! ### One round keeps the addresses -/

/-- `qs` covers what `ps` covers, each prefix of `ps` in one piece. -/
structure Gathers (ps qs : List Prefix) : Prop where
  /-- Each prefix lies inside one of the result. -/
  inputs : ∀ p ∈ ps, ∃ q ∈ qs, q.covers p
  /-- Each prefix of the result has one inside it. -/
  outputs : ∀ q ∈ qs, ∃ p ∈ ps, q.covers p
  /-- The result covers no other address. -/
  covered : ∀ x, Covered qs x → Covered ps x

namespace Gathers

variable {ps qs rs : List Prefix}

theorem covered_iff (gathers : Gathers ps qs) (x : Addr) : Covered qs x ↔ Covered ps x := by
  refine ⟨gathers.covered x, ?_⟩
  rintro ⟨p, member, held⟩
  obtain ⟨q, gathered, inside⟩ := gathers.inputs p member
  exact ⟨q, gathered, Prefix.contains_of_covers inside held⟩

theorem trans (first : Gathers ps qs) (second : Gathers qs rs) : Gathers ps rs where
  inputs p member := by
    obtain ⟨q, between, inside⟩ := first.inputs p member
    obtain ⟨r, gathered, around⟩ := second.inputs q between
    exact ⟨r, gathered, Prefix.covers_trans around inside⟩
  outputs r member := by
    obtain ⟨q, between, around⟩ := second.outputs r member
    obtain ⟨p, source, inside⟩ := first.outputs q between
    exact ⟨p, source, Prefix.covers_trans around inside⟩
  covered x held := first.covered x (second.covered x held)

theorem of_mem_iff (same : ∀ p, p ∈ ps ↔ p ∈ qs) : Gathers ps qs where
  inputs p member := ⟨p, (same p).mp member, p.covers_refl⟩
  outputs q member := ⟨q, (same q).mpr member, q.covers_refl⟩
  covered x held := (covered_iff_of_mem_iff same x).mpr held

theorem refl (ps : List Prefix) : Gathers ps ps := of_mem_iff fun _ => Iff.rfl

theorem cons (p : Prefix) (rest : Gathers ps qs) : Gathers (p :: ps) (p :: qs) where
  inputs q member := by
    rcases mem_cons.mp member with rfl | member
    · exact ⟨q, mem_cons_self, q.covers_refl⟩
    · obtain ⟨r, gathered, inside⟩ := rest.inputs q member
      exact ⟨r, mem_cons_of_mem _ gathered, inside⟩
  outputs q member := by
    rcases mem_cons.mp member with rfl | member
    · exact ⟨q, mem_cons_self, q.covers_refl⟩
    · obtain ⟨r, source, inside⟩ := rest.outputs q member
      exact ⟨r, mem_cons_of_mem _ source, inside⟩
  covered x held := by
    rw [covered_cons] at held ⊢
    exact held.imp_right (rest.covered x)

theorem masked (ps : List Prefix) : Gathers ps (ps.map Prefix.masked) where
  inputs p member := ⟨p.masked, mem_map_of_mem member, by simp⟩
  outputs q member := by
    obtain ⟨p, source, rfl⟩ := mem_map.mp member
    exact ⟨p, source, by simp⟩
  covered x := by
    rintro ⟨q, member, held⟩
    obtain ⟨p, source, rfl⟩ := mem_map.mp member
    exact ⟨p, source, by simpa using held⟩

end Gathers

theorem gathers_sortPrefixes (ps : List Prefix) : Gathers ps (sortPrefixes ps) :=
  .of_mem_iff fun _ => mem_sortPrefixes.symm

variable {q : Prefix} {kept : List Prefix}

theorem mem_dropCovered_of_mem_kept
    (member : q ∈ kept) (ps : List Prefix) : q ∈ dropCovered kept ps := by
  induction ps generalizing kept with
  | nil => exact member
  | cons p ps ih =>
    rw [dropCovered]
    split
    · exact ih member
    · exact ih (mem_append_left _ member)

theorem mem_of_mem_dropCovered (member : q ∈ dropCovered kept ps) : q ∈ kept ∨ q ∈ ps := by
  induction ps generalizing kept with
  | nil => exact .inl member
  | cons p ps ih =>
    rw [dropCovered] at member
    split at member
    · exact (ih member).imp_right (mem_cons_of_mem _)
    · rcases ih member with front | back
      · rcases mem_append.mp front with old | new
        · exact .inl old
        · rw [mem_singleton] at new
          exact .inr (new ▸ mem_cons_self)
      · exact .inr (mem_cons_of_mem _ back)

theorem exists_dropCovered_covers (member : p ∈ ps) : ∃ q ∈ dropCovered kept ps, q.covers p := by
  induction ps generalizing kept with
  | nil => simp at member
  | cons first ps ih =>
    rw [dropCovered]
    rcases mem_cons.mp member with rfl | later
    · split
      case isTrue covered =>
        obtain ⟨q, held, inside⟩ := any_eq_true.mp covered
        exact ⟨q, mem_dropCovered_of_mem_kept held ps, inside⟩
      case isFalse =>
        exact ⟨p, mem_dropCovered_of_mem_kept (by simp) ps, p.covers_refl⟩
    · split
      · exact ih later
      · exact ih later

theorem gathers_dropCovered (ps : List Prefix) : Gathers ps (dropCovered [] ps) := by
  have source : ∀ q ∈ dropCovered [] ps, q ∈ ps := by
    intro q member
    simpa using mem_of_mem_dropCovered member
  refine ⟨fun p member => exists_dropCovered_covers member, ?_, ?_⟩
  · intro q member
    exact ⟨q, source q member, q.covers_refl⟩
  · rintro x ⟨q, member, held⟩
    exact ⟨q, source q member, held⟩

theorem mergeable_iff : mergeable p q ↔ 0 < p.bits ∧ p.bits = q.bits ∧ p.parent.contains p.addr ∧
        p.parent.contains q.addr ∧ p.addr ≠ q.addr := by
  simp [mergeable]

theorem contains_parent_of_mergeable (first : p.IsMasked)
    (second : q.IsMasked) (merge : mergeable p q) (x : Addr) :
    p.parent.contains x ↔ p.contains x ∨ q.contains x := by
  obtain ⟨positive, bits, _, held, differ⟩ := mergeable_iff.mp merge
  have inside : p.parent.covers q := Prefix.covers_iff.mpr ⟨by rw [Prefix.bits_parent]; omega, held⟩
  exact Prefix.contains_parent_iff first second positive bits
    (fun same => differ (congrArg Prefix.addr same)) inside

section

variable (masked : ∀ p ∈ ps, p.IsMasked)

include masked

theorem isMasked_mergePairs :
    ∀ p ∈ (mergePairs ps).1, p.IsMasked := by
  induction ps using mergePairs.induct with
  | case1 p q rest merge ih =>
    rw [mergePairs, if_pos merge]
    intro r member
    rcases mem_cons.mp member with rfl | member
    · exact p.isMasked_parent
    · exact ih (fun r held => masked r (by simp [held])) r member
  | case2 p q rest apart ih =>
    rw [mergePairs, if_neg apart]
    intro r member
    rcases mem_cons.mp member with rfl | member
    · exact masked _ mem_cons_self
    · exact ih (fun r held => masked r (mem_cons_of_mem _ held)) r member
  | case3 p => simpa [mergePairs] using masked
  | case4 => simp [mergePairs]

theorem gathers_mergePairs : Gathers ps (mergePairs ps).1 := by
  induction ps using mergePairs.induct with
  | case1 p q rest merge ih =>
    have later := ih fun r held => masked r (by simp [held])
    have halves := contains_parent_of_mergeable (masked p (by simp)) (masked q (by simp)) merge
    have second : p.parent.covers q := Prefix.covers_iff.mpr
      ⟨by have := (mergeable_iff.mp merge).2.1; rw [Prefix.bits_parent]; omega,
        (mergeable_iff.mp merge).2.2.2.1⟩
    rw [mergePairs, if_pos merge]
    refine ⟨?_, ?_, ?_⟩
    · intro r member
      simp only [mem_cons] at member
      rcases member with rfl | rfl | member
      · exact ⟨_, mem_cons_self, r.parent_covers⟩
      · exact ⟨_, mem_cons_self, second⟩
      · obtain ⟨a, gathered, inside⟩ := later.inputs r member
        exact ⟨a, mem_cons_of_mem _ gathered, inside⟩
    · intro a member
      rcases mem_cons.mp member with rfl | member
      · exact ⟨p, mem_cons_self, p.parent_covers⟩
      · obtain ⟨r, source, inside⟩ := later.outputs a member
        exact ⟨r, by simp [source], inside⟩
    · intro x held
      rw [covered_cons, halves] at held
      rw [covered_cons, covered_cons, ← or_assoc]
      exact held.imp_right (later.covered x)
  | case2 p q rest apart ih =>
    rw [mergePairs, if_neg apart]
    exact .cons p (ih fun r held => masked r (mem_cons_of_mem _ held))
  | case3 | case4 => exact .refl _

theorem isMasked_mergeOnce : ∀ p ∈ (mergeOnce ps).1, p.IsMasked :=
  isMasked_mergePairs fun p member => masked p (mem_sortPrefixes.mp member)

theorem gathers_mergeOnce : Gathers ps (mergeOnce ps).1 :=
  (gathers_sortPrefixes ps).trans (gathers_mergePairs
    fun p member => masked p (mem_sortPrefixes.mp member))

end

theorem gathers_mergeAll (rounds : Nat)
    (masked : ∀ p ∈ ps, p.IsMasked) : Gathers ps (mergeAll rounds ps) := by
  induction rounds generalizing ps with
  | zero => exact .refl ps
  | succ rounds ih =>
    rw [mergeAll]
    split
    · exact (gathers_mergeOnce masked).trans (ih (isMasked_mergeOnce masked))
    · exact gathers_mergeOnce masked

theorem isMasked_mergeAll (rounds : Nat) (masked : ∀ p ∈ ps, p.IsMasked) :
    ∀ p ∈ mergeAll rounds ps, p.IsMasked := by
  induction rounds generalizing ps with
  | zero => exact masked
  | succ rounds ih =>
    rw [mergeAll]
    split
    · exact ih (isMasked_mergeOnce masked)
    · exact isMasked_mergeOnce masked

theorem isMasked_dropCovered (ps : List Prefix) :
    ∀ p ∈ dropCovered [] (sortPrefixes (ps.map Prefix.masked)), p.IsMasked := by
  intro p member
  have source := mem_of_mem_dropCovered member
  simp only [not_mem_nil, false_or, mem_sortPrefixes, mem_map] at source
  obtain ⟨q, _, rfl⟩ := source
  exact q.isMasked_masked

/-! ### What aggregation keeps -/

theorem gathers_aggregate (ps : List Prefix) : Gathers ps (aggregate ps) :=
  ((Gathers.masked ps).trans (gathers_sortPrefixes _)).trans ((gathers_dropCovered _).trans
      (gathers_mergeAll _ (isMasked_dropCovered ps)))

variable {a : Prefix}

theorem isMasked_aggregate (member : a ∈ aggregate ps) : a.IsMasked :=
  isMasked_mergeAll _ (isMasked_dropCovered ps) a member

theorem covered_aggregate (ps : List Prefix) (x : Addr) : Covered (aggregate ps) x ↔ Covered ps x :=
  (gathers_aggregate ps).covered_iff x

theorem exists_aggregate_covers (member : p ∈ ps) : ∃ a ∈ aggregate ps, a.covers p :=
  (gathers_aggregate ps).inputs p member

theorem exists_covered_by_aggregate (member : a ∈ aggregate ps) : ∃ p ∈ ps, a.covers p :=
  (gathers_aggregate ps).outputs a member

/-! ### The result is disjoint -/

theorem covers_of_sortKey_le (masked : p.IsMasked)
    (inside : p.covers q) (before : sortKey q ≤ sortKey p) : q.covers p := by
  obtain ⟨le, held⟩ := Prefix.covers_iff.mp inside
  obtain ⟨_, family, lead⟩ := Prefix.contains_iff.mp held
  have start : p.addr.toNat ≤ q.addr.toNat := by
    rw [← masked, Prefix.toNat_masked, ← lead, ← Addr.bitLen_eq family]
    exact Nat.div_mul_le_self ..
  rw [sortKey, sortKey, Prod.Lex.toLex_le_toLex, Prod.Lex.toLex_le_toLex] at before
  have sorted : q.addr.toNat < p.addr.toNat ∨ q.addr.toNat = p.addr.toNat ∧ q.bits ≤ p.bits := by
    simpa [family] using before
  have same : q.addr.toNat = p.addr.toNat := by omega
  have bits : q.bits ≤ p.bits := by omega
  have addr : p.addr = q.addr := Addr.eq_of_toNat_eq family.symm p.zoneFree q.zoneFree same.symm
  exact Prefix.covers_iff.mpr ⟨bits, addr ▸ q.contains_addr⟩

theorem disjoint_dropCovered (masked : ∀ p ∈ ps, p.IsMasked)
    (sorted : ps.Pairwise fun p q => sortKey p ≤ sortKey q)
    (before : ∀ q ∈ kept, ∀ p ∈ ps, sortKey q ≤ sortKey p)
    (apart : kept.Pairwise Prefix.Disjoint) :
    (dropCovered kept ps).Pairwise Prefix.Disjoint := by
  induction ps generalizing kept with
  | nil => exact apart
  | cons p ps ih =>
    rw [pairwise_cons] at sorted
    have maskedLater := fun q member =>
      masked q (mem_cons_of_mem p member)
    have beforeLater : ∀ q ∈ kept, ∀ r ∈ ps, sortKey q ≤ sortKey r :=
      fun q member r later => before q member r (mem_cons_of_mem _ later)
    rw [dropCovered]
    split
    case isTrue => exact ih maskedLater sorted.2 beforeLater apart
    case isFalse uncovered =>
      have separate : ∀ q ∈ kept, q.Disjoint p := by
        intro q member
        have outside : ¬ q.covers p := fun inside =>
          uncovered (any_eq_true.mpr ⟨q, member, inside⟩)
        exact Prefix.disjoint_of_not_covers outside fun around =>
          outside (covers_of_sortKey_le (masked p mem_cons_self) around
            (before q member p mem_cons_self))
      refine ih maskedLater sorted.2 ?_ ?_
      · intro q member r later
        rcases mem_append.mp member with old | new
        · exact beforeLater q old r later
        · rw [mem_singleton] at new
          exact new ▸ sorted.1 r later
      · rw [pairwise_append]
        refine ⟨apart, pairwise_singleton _ _, ?_⟩
        intro q member r new
        rw [mem_singleton] at new
        exact new ▸ separate q member

variable {qs : List Prefix}

theorem Gathers.disjoint (gathers : Gathers ps qs) (apart : ∀ q ∈ ps, p.Disjoint q) :
    ∀ q ∈ qs, p.Disjoint q := by
  intro q member x held other
  obtain ⟨r, source, inner⟩ := gathers.covered x ⟨q, member, other⟩
  exact apart r source x held inner

theorem disjoint_mergePairs (masked : ∀ p ∈ ps, p.IsMasked) (apart : ps.Pairwise Prefix.Disjoint) :
    (mergePairs ps).1.Pairwise Prefix.Disjoint := by
  induction ps using mergePairs.induct with
  | case1 p q rest merge ih =>
    have maskedRest : ∀ r ∈ rest, r.IsMasked := fun r held => masked r (by simp [held])
    have halves := contains_parent_of_mergeable (masked p (by simp)) (masked q (by simp)) merge
    rw [pairwise_cons, pairwise_cons] at apart
    obtain ⟨first, second, later⟩ := apart
    rw [mergePairs, if_pos merge, pairwise_cons]
    refine ⟨?_, ih maskedRest later⟩
    apply (gathers_mergePairs maskedRest).disjoint
    intro r member x held other
    rcases (halves x).mp held with low | high
    · exact first r (mem_cons_of_mem _ member) x low other
    · exact second r member x high other
  | case2 p q rest differ ih =>
    have maskedRest : ∀ r ∈ q :: rest, r.IsMasked :=
      fun r held => masked r (mem_cons_of_mem _ held)
    rw [pairwise_cons] at apart
    rw [mergePairs, if_neg differ, pairwise_cons]
    exact ⟨(gathers_mergePairs maskedRest).disjoint apart.1, ih maskedRest apart.2⟩
  | case3 | case4 => exact apart

theorem disjoint_sortPrefixes (apart : ps.Pairwise Prefix.Disjoint) :
    (sortPrefixes ps).Pairwise Prefix.Disjoint :=
  (perm_sortPrefixes ps).symm.pairwise apart Prefix.Disjoint.symm

theorem disjoint_mergeAll (rounds : Nat)
    (masked : ∀ p ∈ ps, p.IsMasked) (apart : ps.Pairwise Prefix.Disjoint) :
    (mergeAll rounds ps).Pairwise Prefix.Disjoint := by
  have once : ∀ {ps : List Prefix}, (∀ p ∈ ps, p.IsMasked) → ps.Pairwise Prefix.Disjoint →
      (mergeOnce ps).1.Pairwise Prefix.Disjoint := by
    intro ps masked apart
    exact disjoint_mergePairs (fun p member => masked p (mem_sortPrefixes.mp member))
      (disjoint_sortPrefixes apart)
  induction rounds generalizing ps with
  | zero => exact apart
  | succ rounds ih =>
    rw [mergeAll]
    split
    · exact ih (isMasked_mergeOnce masked) (once masked apart)
    · exact once masked apart

theorem disjoint_aggregate (ps : List Prefix) : (aggregate ps).Pairwise Prefix.Disjoint := by
  apply disjoint_mergeAll _ (isMasked_dropCovered ps)
  apply disjoint_dropCovered
  · intro p member
    obtain ⟨q, _, rfl⟩ := mem_map.mp (mem_sortPrefixes.mp member)
    exact q.isMasked_masked
  · exact sorted_sortPrefixes _
  · simp
  · exact .nil

/-! ### The result is maximal -/

theorem mergePairs_unchanged (unchanged : (mergePairs ps).2 = false) :
    (mergePairs ps).1 = ps ∧ ps.IsChain fun p q => ¬ mergeable p q := by
  induction ps using mergePairs.induct with
  | case1 p q rest merge => simp [mergePairs, merge] at unchanged
  | case2 p q rest apart ih =>
    rw [mergePairs, if_neg apart] at unchanged ⊢
    obtain ⟨same, chain⟩ := ih unchanged
    exact ⟨congrArg (p :: ·) same, .cons_cons apart chain⟩
  | case3 p => exact ⟨rfl, .singleton p⟩
  | case4 => exact ⟨rfl, .nil⟩

theorem length_mergePairs (ps : List Prefix) : (mergePairs ps).1.length ≤ ps.length ∧
      ((mergePairs ps).2 = true → (mergePairs ps).1.length < ps.length) := by
  induction ps using mergePairs.induct with
  | case1 p q rest merge ih =>
    simp only [mergePairs, merge, if_true, length_cons]
    omega
  | case2 p q rest apart ih =>
    simp only [mergePairs, apart, length_cons] at ih ⊢
    simpa using ih
  | case3 | case4 => simp [mergePairs]

theorem length_sortPrefixes (ps : List Prefix) : (sortPrefixes ps).length = ps.length :=
  (perm_sortPrefixes ps).length_eq

theorem mergeAll_settled {rounds : Nat} (enough : ps.length < rounds) :
    (mergeAll rounds ps).Pairwise (fun p q => sortKey p ≤ sortKey q) ∧
      (mergeAll rounds ps).IsChain fun p q => ¬ mergeable p q := by
  induction rounds generalizing ps with
  | zero => omega
  | succ rounds ih =>
    have lengths := length_mergePairs (sortPrefixes ps)
    rw [length_sortPrefixes] at lengths
    rw [mergeAll]
    split
    case isTrue changed =>
      apply ih
      have shorter := lengths.2 changed
      rw [mergeOnce]
      omega
    case isFalse unchanged =>
      have still : (mergePairs (sortPrefixes ps)).2 = false := by
        simpa [mergeOnce] using unchanged
      have same := mergePairs_unchanged still
      rw [mergeOnce, same.1]
      exact ⟨sorted_sortPrefixes ps, same.2⟩

section

variable (splits : p.bits < p.addr.bitLen)

include splits

theorem mergeable_halves :
    mergeable (p.lowHalf splits) (p.highHalf splits) := by
  have around : (p.lowHalf splits).parent.covers p := by
    unfold Prefix.parent
    rw [Prefix.masked_covers, Prefix.covers_iff]
    refine ⟨le_rfl, ?_⟩
    rw [Prefix.contains_iff]
    refine ⟨p.zoneFree, by simp [Prefix.lowHalf], ?_⟩
    exact (Prefix.lead_maskedAddr p.addr le_rfl p.bitsLe).symm
  refine mergeable_iff.mpr ⟨Nat.succ_pos _, rfl, ?_, ?_, ?_⟩
  · exact (Prefix.covers_iff.mp (p.lowHalf splits).parent_covers).2
  · exact Prefix.contains_of_covers around (Prefix.covers_iff.mp (Prefix.covers_highHalf splits)).2
  · intro same
    apply Prefix.not_both_halves splits (p.lowHalf splits).contains_addr
    rw [same]
    exact (p.highHalf splits).contains_addr

theorem sortKey_lowHalf_lt :
    sortKey (p.lowHalf splits) < sortKey (p.highHalf splits) := by
  have later : (p.lowHalf splits).addr.toNat < (p.highHalf splits).addr.toNat := by
    rw [Prefix.toNat_highHalf]
    exact Nat.lt_add_of_pos_right (Nat.two_pow_pos _)
  rw [sortKey, sortKey, Prod.Lex.toLex_lt_toLex, Prod.Lex.toLex_lt_toLex]
  exact .inr ⟨by simp [Prefix.lowHalf, Prefix.highHalf], .inl later⟩

theorem not_between_halves (lowApart : (p.lowHalf splits).Disjoint q)
    (highApart : q.Disjoint (p.highHalf splits))
    (after : sortKey (p.lowHalf splits) ≤ sortKey q)
    (before : sortKey q ≤ sortKey (p.highHalf splits)) : False := by
  have lowFamily : (p.lowHalf splits).addr.is6 = p.addr.is6 := by
    simp [Prefix.lowHalf]
  have highFamily : (p.highHalf splits).addr.is6 = p.addr.is6 := by
    simp [Prefix.highHalf]
  rw [sortKey, sortKey, Prod.Lex.toLex_le_toLex, Prod.Lex.toLex_le_toLex, lowFamily] at after
  rw [sortKey, sortKey, Prod.Lex.toLex_le_toLex, Prod.Lex.toLex_le_toLex, highFamily] at before
  have family : q.addr.is6 = p.addr.is6 := by
    have number : q.addr.is6.toNat = p.addr.is6.toNat := by
      rcases after with less | ⟨same, _⟩ <;>
        rcases before with less' | ⟨same', _⟩ <;> omega
    revert number
    cases q.addr.is6 <;> cases p.addr.is6 <;> simp
  have start : (p.lowHalf splits).addr.toNat ≤ q.addr.toNat := by
    rcases after with less | ⟨_, less | ⟨same, _⟩⟩
    · rw [family] at less
      exact absurd less (lt_irrefl _)
    · exact less.le
    · exact same.le
  have stop : q.addr.toNat ≤ (p.highHalf splits).addr.toNat := by
    rcases before with less | ⟨_, less | ⟨same, _⟩⟩
    · rw [family] at less
      exact absurd less (lt_irrefl _)
    · exact less.le
    · exact same.le
  rcases stop.lt_or_eq with less | same
  · exact lowApart q.addr (Prefix.lowHalf_contains splits q.zoneFree family start less)
      q.contains_addr
  · have addr : q.addr = (p.highHalf splits).addr :=
      Addr.eq_of_toNat_eq (family.trans highFamily.symm) q.zoneFree
        (p.highHalf splits).zoneFree same
    exact highApart q.addr q.contains_addr (addr ▸ (p.highHalf splits).contains_addr)

theorem not_mem_both_halves (apart : ps.Pairwise Prefix.Disjoint)
    (sorted : ps.Pairwise fun p q => sortKey p ≤ sortKey q)
    (chain : ps.IsChain fun p q => ¬ mergeable p q)
    (low : p.lowHalf splits ∈ ps) (high : p.highHalf splits ∈ ps) :
    False := by
  induction ps with
  | nil => simp at low
  | cons first rest ih =>
    rw [pairwise_cons] at apart sorted
    have less := sortKey_lowHalf_lt splits
    rcases mem_cons.mp high with atHead | highLater
    · rcases mem_cons.mp low with lowHead | lowLater
      · rw [lowHead, atHead] at less
        exact lt_irrefl _ less
      · have order := sorted.1 _ lowLater
        rw [← atHead] at order
        exact absurd less (not_lt.mpr order)
    · rcases mem_cons.mp low with lowHead | lowLater
      · subst lowHead
        cases rest with
        | nil => simp at highLater
        | cons next rest =>
          rcases mem_cons.mp highLater with atNext | beyond
          · subst atNext
            exact (isChain_cons_cons.mp chain).1 (mergeable_halves splits)
          · rw [pairwise_cons] at apart sorted
            exact not_between_halves splits (apart.1 next mem_cons_self) (apart.2.1 _ beyond)
              (sorted.1 next mem_cons_self)
              (sorted.2.1 _ beyond)
      · exact ih apart.2 sorted.2 (isChain_of_isChain_cons chain) lowLater highLater

end

theorem aggregate_settled (ps : List Prefix) :
    (aggregate ps).Pairwise (fun p q => sortKey p ≤ sortKey q) ∧
      (aggregate ps).IsChain fun p q => ¬ mergeable p q :=
  mergeAll_settled (Nat.lt_succ_self _)

theorem aggregate_maximal (ps : List Prefix) {b : Prefix} (masked : b.IsMasked)
    (filled : ∀ x, b.contains x → Covered ps x) :
    ∃ a ∈ aggregate ps, a.covers b := by
  -- by induction on how many bits the block leaves open
  induction openBits : b.addr.bitLen - b.bits generalizing b with
  | zero =>
    obtain ⟨a, member, held⟩ := (covered_aggregate ps b.addr).mpr (filled b.addr b.contains_addr)
    have sameWidth := Addr.bitLen_eq (Prefix.family_of_contains held)
    exact ⟨a, member, Prefix.covers_of_shared (by have := a.bitsLe; omega) held b.contains_addr⟩
  | succ width ih =>
    have splits : b.bits < b.addr.bitLen := by omega
    have lowWidth : (b.lowHalf splits).addr.bitLen - (b.lowHalf splits).bits = width := by
      simp only [Prefix.lowHalf, Prefix.addr_masked, Prefix.bitLen_maskedAddr]
      omega
    have highWidth : (b.highHalf splits).addr.bitLen - (b.highHalf splits).bits = width := by
      simp only [Prefix.highHalf, Addr.bitLen_setBit, Prefix.addr_masked, Prefix.bitLen_maskedAddr]
      omega
    obtain ⟨low, lowMember, lowCovers⟩ := ih (Prefix.isMasked_lowHalf splits)
      (fun x held => filled x ((Prefix.contains_iff_halves splits).mpr (.inl held))) lowWidth
    obtain ⟨high, highMember, highCovers⟩ := ih (Prefix.isMasked_highHalf splits)
      (fun x held => filled x ((Prefix.contains_iff_halves splits).mpr (.inr held))) highWidth
    have lowShared := Prefix.contains_of_covers lowCovers (b.lowHalf splits).contains_addr
    have highShared := Prefix.contains_of_covers highCovers (b.highHalf splits).contains_addr
    by_cases lowShort : low.bits ≤ b.bits
    · exact ⟨low, lowMember, Prefix.covers_of_shared lowShort lowShared
        (Prefix.covers_iff.mp (Prefix.covers_lowHalf splits)).2⟩
    by_cases highShort : high.bits ≤ b.bits
    · exact ⟨high, highMember, Prefix.covers_of_shared highShort highShared
        (Prefix.covers_iff.mp (Prefix.covers_highHalf splits)).2⟩
    -- otherwise the aggregate holds both halves, which would have merged
    have lowBits : low.bits = b.bits + 1 :=
      le_antisymm (Prefix.covers_iff.mp lowCovers).1 (by omega)
    have highBits : high.bits = b.bits + 1 :=
      le_antisymm (Prefix.covers_iff.mp highCovers).1 (by omega)
    have lowEq := Prefix.eq_of_covers_of_bits (isMasked_aggregate lowMember)
      (Prefix.isMasked_lowHalf splits) lowBits lowCovers
    have highEq := Prefix.eq_of_covers_of_bits
      (isMasked_aggregate highMember) (Prefix.isMasked_highHalf splits)
      highBits highCovers
    obtain ⟨sorted, chain⟩ := aggregate_settled ps
    exact (not_mem_both_halves splits (disjoint_aggregate ps) sorted chain
      (lowEq ▸ lowMember) (highEq ▸ highMember)).elim

/-! ### The aggregate, by what it covers -/

theorem eq_of_mem_aggregate {b : Prefix} {x : Addr}
    (first : a ∈ aggregate ps) (second : b ∈ aggregate ps)
    (inFirst : a.contains x) (inSecond : b.contains x) : a = b := by
  by_contra differ
  have symmetric : Std.Symm Prefix.Disjoint := ⟨fun _ _ apart => apart.symm⟩
  exact (disjoint_aggregate ps).forall first second differ x inFirst inSecond

/-- A block all of whose addresses are covered. -/
def Filled (ps : List Prefix) (b : Prefix) : Prop := ∀ x, b.contains x → Covered ps x

/-- A masked block all of whose addresses are covered, and no larger one
around it. -/
structure MaximalBlock (ps : List Prefix) (b : Prefix) : Prop where
  masked : b.IsMasked
  filled : Filled ps b
  largest : ∀ outer : Prefix, outer.covers b → Filled ps outer → outer.bits = b.bits

theorem mem_aggregate {b : Prefix} : b ∈ aggregate ps ↔ MaximalBlock ps b := by
  constructor
  · intro member
    refine ⟨isMasked_aggregate member, ?_, ?_⟩
    · exact fun x held => (covered_aggregate ps x).mp ⟨b, member, held⟩
    · intro outer covers filled
      obtain ⟨a, other, around⟩ := aggregate_maximal ps outer.isMasked_masked
        fun x held => filled x (by simpa using held)
      have inside : a.covers b := Prefix.covers_trans (by simpa using around) covers
      have same : a = b := eq_of_mem_aggregate other member
        (Prefix.covers_iff.mp inside).2 b.contains_addr
      subst same
      exact le_antisymm (Prefix.covers_iff.mp covers).1
        (by simpa using (Prefix.covers_iff.mp around).1)
  · intro block
    obtain ⟨a, member, covers⟩ := aggregate_maximal ps block.masked block.filled
    have filled : Filled ps a := fun x held =>
      (covered_aggregate ps x).mp ⟨a, member, held⟩
    have bits := block.largest a covers filled
    rwa [← Prefix.eq_of_covers_of_bits (isMasked_aggregate member) block.masked bits covers]

theorem sortKey_inj (same : sortKey p = sortKey q) : p = q := by
  simp only [sortKey, toLex_inj, Prod.mk.injEq] at same
  obtain ⟨family, value, bits⟩ := same
  have sameFamily : p.addr.is6 = q.addr.is6 := by
    cases first : p.addr.is6 <;> cases second : q.addr.is6 <;>
      simp [first, second] at family ⊢
  exact Prefix.eq_of_addr_eq (Addr.eq_of_toNat_eq sameFamily p.zoneFree q.zoneFree value) bits

theorem nodup_aggregate (ps : List Prefix) : (aggregate ps).Nodup := by
  refine (disjoint_aggregate ps).imp ?_
  rintro p q apart rfl
  exact apart p.addr p.contains_addr p.contains_addr

theorem aggregate_congr
    (same : ∀ x, Covered ps x ↔ Covered qs x) : aggregate ps = aggregate qs := by
  have members : ∀ b, b ∈ aggregate ps ↔ b ∈ aggregate qs := by
    intro b
    rw [mem_aggregate, mem_aggregate]
    have filled : ∀ c, Filled ps c ↔ Filled qs c :=
      fun c => forall_congr' fun x => imp_congr_right fun _ => same x
    exact ⟨fun block => ⟨block.masked, (filled b).mp block.filled,
        fun outer around full => block.largest outer around ((filled outer).mpr full)⟩,
      fun block => ⟨block.masked, (filled b).mpr block.filled,
        fun outer around full => block.largest outer around ((filled outer).mp full)⟩⟩
  have perm := (perm_ext_iff_of_nodup (nodup_aggregate ps) (nodup_aggregate qs)).mpr members
  exact perm.eq_of_pairwise (fun p q _ _ le ge => sortKey_inj (le_antisymm le ge))
    (aggregate_settled ps).1 (aggregate_settled qs).1

theorem exists_inside_of_covered (same : ∀ x, Covered qs x ↔ Covered ps x)
    (member : a ∈ aggregate ps) : ∃ q ∈ qs, a.covers q := by
  have here : Covered ps a.addr := (covered_aggregate ps a.addr).mp ⟨a, member, a.contains_addr⟩
  obtain ⟨q, inside, holds⟩ := (same a.addr).mpr here
  obtain ⟨b, other, around⟩ := aggregate_maximal ps q.isMasked_masked
    fun x held => (same x).mp ⟨q, inside, by simpa using held⟩
  have around' : b.covers q := by simpa using around
  have equal : a = b := eq_of_mem_aggregate member other a.contains_addr
    (Prefix.contains_of_covers around' holds)
  exact ⟨q, inside, equal ▸ around'⟩

theorem length_aggregate_le (same : ∀ x, Covered qs x ↔ Covered ps x) :
    (aggregate ps).length ≤ qs.length := by
  -- each prefix of the other list is sent to the block around it
  let block : Prefix → Prefix := fun q =>
    if around : ∃ a ∈ aggregate ps, a.covers q then around.choose else q
  have reached : aggregate ps ⊆ qs.map block := by
    intro a member
    obtain ⟨q, inside, covers⟩ := exists_inside_of_covered same member
    have around : ∃ a ∈ aggregate ps, a.covers q := ⟨a, member, covers⟩
    have equal : block q = a := by
      simp only [block, dif_pos around]
      obtain ⟨chosen, holds⟩ := around.choose_spec
      exact eq_of_mem_aggregate chosen member
        (Prefix.covers_iff.mp holds).2 (Prefix.covers_iff.mp covers).2
    exact mem_map.mpr ⟨q, inside, equal⟩
  have fewer := (subperm_of_subset (nodup_aggregate ps) reached).length_le
  rwa [length_map] at fewer

/-- Aggregation is a canonical form: it covers the same addresses by pairwise
disjoint prefixes, as few as can be, the maximal blocks of what is covered; it
depends on nothing but what is covered, and doing it again changes nothing. -/
theorem aggregate_canonical (ps : List Prefix) : (∀ x, Covered (aggregate ps) x ↔ Covered ps x) ∧
      (aggregate ps).Pairwise Prefix.Disjoint ∧
      (∀ qs : List Prefix, (∀ x, Covered qs x ↔ Covered ps x) → (aggregate ps).length ≤ qs.length) ∧
      (∀ b, b ∈ aggregate ps ↔ MaximalBlock ps b) ∧
      (∀ qs : List Prefix, (∀ x, Covered qs x ↔ Covered ps x) → aggregate qs = aggregate ps) ∧
      aggregate (aggregate ps) = aggregate ps := by
  refine ⟨covered_aggregate ps, disjoint_aggregate ps, ?_, ?_, ?_, ?_⟩
  · exact fun qs same => length_aggregate_le same
  · exact fun b => mem_aggregate
  · exact fun qs same => aggregate_congr same
  · exact aggregate_congr (covered_aggregate ps)

end RiftRoute
