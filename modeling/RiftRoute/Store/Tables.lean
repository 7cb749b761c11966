/-
Module: RiftRoute.Store.Tables
Purpose: The stored tables: the write-ahead journal, of which reading leaves
  out the rows this build cannot interpret; the ownership table, keyed by
  family, destination, gateway and interface; profiles and lists, and what
  restoring a snapshot's profiles leaves.
Trusted boundary: human-reviewed spec
-/
import RiftRoute.Library.KeyedTable
import RiftRoute.Routing.DesiredInput
import RiftRoute.Library.Cells
import Mathlib.Data.List.Sort

namespace RiftRoute

/-- The newest document format this build reads, and the one it writes. -/
def walFormat : Int := 1

/-- A stored document: a plan, or a text that does not decode as one. -/
inductive JournalDoc where
  | plan (plan : Plan)
  | corrupt (text : String)
deriving DecidableEq

/-- A row of the journal; `format` is `none` when the column holds no
integer. -/
structure PendingRow where
  id : String
  format : Option Int
  doc : JournalDoc
deriving DecidableEq

def PendingRow.readable (row : PendingRow) : Option Plan :=
  match row.format with
  | none => none
  | some format =>
    if format > walFormat then none
    else
      match row.doc with
      | .plan plan => some plan
      | .corrupt _ => none

abbrev Journal := KeyedTable PendingRow.id

namespace Journal

variable (j : Journal) (id : String)

/-- The row `PutPendingTx` writes. -/
def entry (plan : Plan) : PendingRow :=
  { id := id, format := some walFormat, doc := .plan plan }

@[simp] theorem readable_entry (plan : Plan) :
    (entry id plan).readable = some plan := rfl

/-- `INSERT … ON CONFLICT(id) DO UPDATE SET doc, format`. -/
def putPendingTx (plan : Plan) : Journal := j.put (entry id plan)

/-- `DELETE … WHERE id`. -/
def clearPendingTx : Journal := j.erase id

def listPendingTx : List (String × Plan) :=
  j.rows.filterMap fun row => row.readable.map fun plan => (row.id, plan)

@[simp] theorem find_putPendingTx (id other : String) (plan : Plan) :
    (j.putPendingTx id plan).find other =
      if id = other then some (entry id plan) else j.find other :=
  KeyedTable.find_put j (entry id plan) other

@[simp] theorem find_clearPendingTx (id other : String) :
    (j.clearPendingTx id).find other = if id = other then none else j.find other :=
  KeyedTable.find_erase j id other

theorem mem_listPendingTx {j : Journal} {id : String} {plan : Plan} : (id, plan) ∈ j.listPendingTx ↔
      ∃ row, j.find id = some row ∧ row.readable = some plan := by
  rw [listPendingTx, List.mem_filterMap]
  constructor
  · rintro ⟨row, member, listed⟩
    obtain ⟨read, readable, pair⟩ := Option.map_eq_some_iff.mp listed
    obtain ⟨rfl, rfl⟩ := Prod.mk.inj pair
    exact ⟨row, KeyedTable.find_of_mem member, readable⟩
  · rintro ⟨row, found, readable⟩
    have keyEq := KeyedTable.key_of_find found
    exact ⟨row, KeyedTable.mem_of_find found, by rw [readable, ← keyEq]; rfl⟩

theorem mem_listPendingTx_clear {j : Journal} {gone id : String} {plan : Plan} :
    (id, plan) ∈ (j.clearPendingTx gone).listPendingTx ↔
      gone ≠ id ∧ (id, plan) ∈ j.listPendingTx := by
  rw [mem_listPendingTx, mem_listPendingTx, find_clearPendingTx]
  by_cases here : gone = id <;> simp [here]

theorem mem_listPendingTx_put {j : Journal} {new id : String} {written plan : Plan} :
    (id, plan) ∈ (j.putPendingTx new written).listPendingTx ↔
      new = id ∧ plan = written ∨ new ≠ id ∧ (id, plan) ∈ j.listPendingTx := by
  rw [mem_listPendingTx, mem_listPendingTx, find_putPendingTx]
  by_cases here : new = id
  · simp [here, eq_comm]
  · simp [here]

theorem nodup_listPendingTx : (j.listPendingTx.map Prod.fst).Nodup := by
  have ids : j.listPendingTx.map Prod.fst =
      (j.rows.filter fun row => row.readable.isSome).map PendingRow.id := by
    rw [listPendingTx, List.map_filterMap]
    induction j.rows with
    | nil => rfl
    | cons row rows ih =>
      cases readable : row.readable with
      | none | some => simpa [readable] using ih
  rw [ids]
  exact (List.filter_sublist.map _).nodup j.nodup

end Journal

open List

/-- `PRIMARY KEY (family, dst_cidr, gateway, iface)`. -/
structure OwnKey where
  family : Family
  dst : String
  gateway : String
  iface : String
deriving DecidableEq, Repr

def ownKey (mr : ManagedRoute) : OwnKey :=
  { family := mr.route.family, dst := mr.route.dstCIDR
    gateway := mr.route.gateway, iface := mr.route.iface }

/-- The row a route of this identity is kept in. -/
def RouteKey.ownKey (k : RouteKey) : OwnKey :=
  { family := k.dst.family, dst := k.dst.dst
    gateway := k.gateway, iface := k.iface }

@[simp] theorem ownKey_key (mr : ManagedRoute) : mr.key.ownKey = ownKey mr := rfl

theorem ownKey_eq_of_key_eq {first second : ManagedRoute}
    (same : first.key = second.key) : ownKey first = ownKey second :=
  congrArg RouteKey.ownKey same

/-- A row of the ownership table. -/
structure OwnedRow where
  doc : ManagedRoute
  createdAt : String
deriving DecidableEq, Repr

abbrev Ownership := KeyedTable fun row : OwnedRow => ownKey row.doc

namespace Ownership

variable (s : Ownership) (mr : ManagedRoute) (k : OwnKey)

/-- `INSERT … ON CONFLICT DO UPDATE SET profile_id, doc`. -/
def addOwned : Ownership :=
  s.put
    { doc := mr
      createdAt :=
        match s.find (ownKey mr) with
        | some row => row.createdAt
        | none => mr.createdAt.rfc3339Nano }

/-- `DELETE … WHERE family, dst_cidr, gateway, iface`. -/
def delOwned : Ownership := s.erase (ownKey mr)

def clearOwned (_ : Ownership) : Ownership := .empty

/-- `SELECT doc … ORDER BY created_at`. -/
def listOwned : List ManagedRoute :=
  (s.rows.insertionSort fun a b => a.createdAt ≤ b.createdAt).map OwnedRow.doc

def docAt : Option ManagedRoute := (s.find k).map OwnedRow.doc

@[simp] theorem docAt_addOwned :
    (s.addOwned mr).docAt k = if ownKey mr = k then some mr else s.docAt k := by
  rw [docAt, addOwned, KeyedTable.find_put]
  by_cases here : ownKey mr = k
  · simp [here]
  · simp [here, docAt]

@[simp] theorem docAt_delOwned :
    (s.delOwned mr).docAt k = if ownKey mr = k then none else s.docAt k := by
  rw [docAt, delOwned, KeyedTable.find_erase]
  by_cases here : ownKey mr = k
  · simp [here]
  · simp [here, docAt]

@[simp] theorem docAt_clearOwned : s.clearOwned.docAt k = none := rfl

@[simp] theorem docAt_empty : docAt (KeyedTable.empty : Ownership) k = none := rfl

theorem mem_listOwned {s : Ownership} {mr : ManagedRoute} :
    mr ∈ s.listOwned ↔ s.docAt (ownKey mr) = some mr := by
  rw [listOwned, mem_map, docAt, Option.map_eq_some_iff]
  constructor
  · rintro ⟨row, listed, rfl⟩
    have member := (perm_insertionSort _ s.rows).mem_iff.mp listed
    exact ⟨row, KeyedTable.find_of_mem member, rfl⟩
  · rintro ⟨row, found, rfl⟩
    have member := KeyedTable.mem_of_find found
    exact ⟨row, (perm_insertionSort _ s.rows).mem_iff.mpr member, rfl⟩

theorem nodup_listOwned : (s.listOwned.map ownKey).Nodup := by
  rw [listOwned, map_map]
  exact ((perm_insertionSort _ s.rows).map _).nodup_iff.mpr s.nodup

theorem filter_listOwned (accept : ManagedRoute → Bool)
    {k : OwnKey} (sameRow : ∀ mr, accept mr → ownKey mr = k) :
    s.listOwned.filter accept = ((s.docAt k).filter accept).toList := by
  have nodup : (s.listOwned.filter accept).Nodup := (List.Nodup.of_map _ s.nodup_listOwned).filter _
  have members : ∀ mr, mr ∈ s.listOwned.filter accept ↔ mr ∈ (s.docAt k).filter accept := by
    intro mr
    rw [mem_filter, mem_listOwned, Option.mem_def, Option.filter_eq_some_iff]
    constructor
    · rintro ⟨found, accepted⟩
      exact ⟨sameRow mr accepted ▸ found, accepted⟩
    · rintro ⟨found, accepted⟩
      exact ⟨(sameRow mr accepted).symm ▸ found, accepted⟩
  cases held : (s.docAt k).filter accept with
  | none =>
    rw [Option.toList_none, eq_nil_iff_forall_not_mem]
    intro mr member
    simpa [held] using (members mr).mp member
  | some mr =>
    rw [Option.toList_some, ← perm_singleton]
    apply (perm_ext_iff_of_nodup nodup (nodup_singleton mr)).mpr
    intro other
    rw [members, held, mem_singleton, Option.mem_some_iff, eq_comm]

end Ownership

/-! ### A faithful map, or not -/

open LastWrite

/-- The calls that change the ownership table. -/
abbrev OwnershipOp := MapOp ManagedRoute

namespace Ownership

def applyOp (s : Ownership) : OwnershipOp → Ownership
  | .put mr => s.addOwned mr
  | .drop mr => s.delOwned mr
  | .clear => s.clearOwned

variable (ops : List OwnershipOp)

/-- The table after a sequence of calls. -/
def after : Ownership := ops.foldl applyOp .empty

theorem docAt_after (k : OwnKey) : (after ops).docAt k =
      lastPut (fun mr : ManagedRoute => mr.key.ownKey) ops k := by
  induction ops using reverseRecOn with
  | nil => rfl
  | append_singleton ops op ih =>
    have last : after (ops ++ [op]) = (after ops).applyOp op := foldl_append
    rw [last, lastPut_snoc, ← ih]
    cases op with
    | put mr => exact docAt_addOwned (after ops) mr k
    | drop mr => exact docAt_delOwned (after ops) mr k
    | clear => rfl

/-- The table is a map from `RouteKey` to the route recorded last: for each
key whose last call was `AddOwned` exactly that record is listed, and no
other. -/
def Faithful : Prop :=
  ∀ k : RouteKey, (after ops).listOwned.filter (fun mr => mr.key = k) =
    (lastPut ManagedRoute.key ops k).toList

end Ownership

/-- The ownership table is a faithful map exactly when no route whose record
should stay is followed by a call for another route of its family,
destination, gateway and interface. -/
theorem ownership_faithful_iff (ops : List OwnershipOp) :
    Ownership.Faithful ops ↔ NoClobber ManagedRoute.key RouteKey.ownKey ops := by
  rw [← coarse_faithful_iff]
  apply forall_congr'
  intro k
  rw [Ownership.filter_listOwned (k := k.ownKey), Ownership.docAt_after]
  · constructor
    · intro lists
      have heads := congrArg head? lists
      rwa [Option.head?_toList, Option.head?_toList] at heads
    · intro same
      rw [same]
  · intro mr here
    exact congrArg RouteKey.ownKey (decide_eq_true_iff.mp here)

theorem ownKey_bypassCopy (r : ManagedRoute) : ownKey (bypassCopy r) = ownKey r := rfl

theorem key_bypassCopy_ne {r : ManagedRoute} (main : r.route.table = "") :
    (bypassCopy r).key ≠ r.key := by
  intro same
  have tables : bypassTable = r.route.table := congrArg (fun k : RouteKey => k.dst.table) same
  rw [main] at tables
  exact absurd tables (by decide)

theorem bypassCopy_record_lost {recorded : List ManagedRoute}
    {r : ManagedRoute} (main : r.route.table = "") (member : r ∈ recorded)
    (copied : bypassCopy r ∈ recorded) :
    ¬ Ownership.Faithful (recorded.map .put) := by
  intro faithful
  have held : ∀ mr ∈ recorded, ∃ doc,
      (Ownership.after (recorded.map .put)).docAt (ownKey mr) = some doc ∧ doc.key = mr.key := by
    intro mr inRecorded
    obtain ⟨doc, last⟩ := Option.isSome_iff_exists.mp
      (lastPut_isSome_of_puts ManagedRoute.key inRecorded)
    have listed := faithful mr.key
    rw [last, Option.toList_some] at listed
    have docListed : doc ∈ (Ownership.after (recorded.map .put)).listOwned.filter
        fun mr' => mr'.key = mr.key := by
      rw [listed]
      exact mem_singleton_self doc
    obtain ⟨inList, sameKey⟩ := mem_filter.mp docListed
    have keyEq : doc.key = mr.key := decide_eq_true_iff.mp sameKey
    rw [Ownership.mem_listOwned, ownKey_eq_of_key_eq keyEq] at inList
    exact ⟨doc, inList, keyEq⟩
  obtain ⟨doc, atRow, keyEq⟩ := held r member
  obtain ⟨copyDoc, atCopyRow, copyKeyEq⟩ := held (bypassCopy r) copied
  rw [ownKey_bypassCopy, atRow] at atCopyRow
  obtain rfl := Option.some.inj atCopyRow
  exact key_bypassCopy_ne main (copyKeyEq.symm.trans keyEq)

/-- One exclude route beside a Tailscale whose exit node is on: the desired
set has two routes, the ownership table keeps the copy's record only. -/
theorem exit_node_copy_replaces_record : let r : ManagedRoute :=
      { route :=
          { dstCIDR := "10.0.0.0/8", gateway := "192.168.1.1", iface := "eth0" }
        profileID := "work" }
    let inp : TailscaleInput :=
      { tailscale := [], tailscaleTable := "52", tailscaleExitNode := true
        platform := "linux", now := GoTime.Time.zero }
    let desired := (besideTailscale [r] [] inp).1
    desired = [r, bypassCopy r] ∧ (Ownership.after (desired.map .put)).listOwned = [bypassCopy r] ∧
      ¬ Ownership.Faithful (desired.map .put) := by
  intro r inp desired
  refine ⟨by decide, by decide, ?_⟩
  have both : r ∈ desired ∧ bypassCopy r ∈ desired :=
    bypassCopy_mem_besideTailscale (by decide) (by decide) rfl (by decide) rfl
  exact bypassCopy_record_lost rfl both.1 both.2

/-- The profiles table: `id` is its primary key, `name` is unique. -/
abbrev ProfileStore := UniqueTable Profile.id Profile.name

variable (s : ProfileStore)

/-- Insert or replace a profile by id; `none` is a refused name. -/
def upsertProfile (p : Profile) : Option ProfileStore := s.upsert p

def deleteProfile (name : String) : ProfileStore := s.deleteMark name

/-- `ORDER BY priority, name`. -/
def profileBefore (p q : Profile) : Prop :=
  p.priority < q.priority ∨ p.priority = q.priority ∧ ¬ q.name < p.name

instance : DecidableRel profileBefore := fun p q =>
  inferInstanceAs (Decidable (p.priority < q.priority ∨ _))

def listProfiles : List Profile := s.rows.insertionSort profileBefore

@[simp] theorem mem_listProfiles {s : ProfileStore} {p : Profile} :
    p ∈ listProfiles s ↔ p ∈ s.rows :=
  List.mem_insertionSort _

/-- Save a profile; a refusal is logged and changes nothing. -/
def saveProfile (p : Profile) : ProfileStore := (upsertProfile s p).getD s

abbrev ListStore := KeyedTable NamedList.name

/-- Insert or replace a list by name. -/
def upsertList (s : ListStore) (l : NamedList) : ListStore := s.put l

def listLists (s : ListStore) : List NamedList := s.rows.insertionSort fun l m => ¬ m.name < l.name

/-- The save step: the profile set becomes the snapshot's. -/
def restoreProfiles (stored : ProfileStore) (snap : List Profile) : ProfileStore :=
  let extra := (listProfiles stored).filter fun p => p.id ∉ snap.map Profile.id
  let kept := extra.foldl (fun s p => deleteProfile s p.name) stored
  snap.foldl saveProfile kept

/-! ### What is kept for the saves -/

/-- The profiles left for the saves are the stored ones the snapshot has. -/
def keptFor (stored : ProfileStore) (snap : List Profile) : ProfileStore :=
  (((listProfiles stored).filter fun p =>
    p.id ∉ snap.map Profile.id).map Profile.name).foldl UniqueTable.deleteMark stored

theorem restoreProfiles_eq (stored : ProfileStore) (snap : List Profile) :
    restoreProfiles stored snap = snap.foldl UniqueTable.save (keptFor stored snap) := by
  unfold restoreProfiles keptFor
  rw [foldl_map]
  rfl

variable {snap : List Profile}

theorem mem_keptFor {stored : ProfileStore} {p : Profile} :
    p ∈ (keptFor stored snap).rows ↔ p ∈ stored.rows ∧ p.id ∈ snap.map Profile.id := by
  rw [keptFor, UniqueTable.mem_foldl_deleteMark]
  refine and_congr_right fun member => ?_
  constructor
  · intro spared
    by_contra extra
    apply spared
    exact mem_map_of_mem (mem_filter.mpr
      ⟨mem_listProfiles.mpr member, by simpa using extra⟩)
  · intro inSnap deleted
    obtain ⟨q, listed, sameName⟩ := mem_map.mp deleted
    obtain ⟨qMember, extra⟩ := mem_filter.mp listed
    obtain rfl := UniqueTable.mark_injOn (mem_listProfiles.mp qMember) member sameName
    exact of_decide_eq_true extra inSnap

theorem replaced_keptFor (stored : ProfileStore) (snap : List Profile) :
    (keptFor stored snap).Replaced snap :=
  fun _ _ _ member _ => (mem_keptFor.mp member).2

theorem inTurn_keptFor_iff {stored : ProfileStore} :
    (keptFor stored snap).InTurn snap ↔ stored.InTurn snap := by
  refine ⟨fun inTurn => ?_, fun inTurn => ?_⟩
  · refine List.Pairwise.imp_of_mem ?_ inTurn
    intro p q _ qMember apart r member same
    apply apart r (mem_keptFor.mpr ⟨member, ?_⟩) same
    rw [same]
    exact mem_map_of_mem qMember
  · exact inTurn.imp fun apart r member => apart r (mem_keptFor.mp member).1

theorem id_mem_of_restored {stored : ProfileStore}
    {p : Profile} (member : p ∈ (restoreProfiles stored snap).rows) :
    p.id ∈ snap.map Profile.id := by
  by_contra absent
  have found := KeyedTable.find_of_mem member
  rw [restoreProfiles_eq, UniqueTable.find_foldl_save_of_not_mem absent] at found
  exact absent (mem_keptFor.mp (KeyedTable.mem_of_find found)).2

theorem restored_iff_found {stored : ProfileStore} :
    (∀ p, p ∈ (restoreProfiles stored snap).rows ↔ p ∈ snap) ↔
      ∀ p ∈ snap, (restoreProfiles stored snap).find p.id = some p := by
  constructor
  · intro exact p member
    exact KeyedTable.find_of_mem ((exact p).mpr member)
  · intro arrived p
    refine ⟨fun member => ?_, fun member =>
      KeyedTable.mem_of_find (arrived p member)⟩
    obtain ⟨q, qMember, same⟩ := mem_map.mp (id_mem_of_restored member)
    have found := KeyedTable.find_of_mem member
    rw [← same, arrived q qMember] at found
    exact Option.some.inj found ▸ qMember

/-- A restore is exact in just those cases where no profile of the snapshot is
stored under the name of an earlier one. -/
theorem restore_exact_iff (stored : ProfileStore) (snap : List Profile)
    (ids : (snap.map Profile.id).Nodup)
    (names : (snap.map Profile.name).Nodup) :
    (∀ p, p ∈ (restoreProfiles stored snap).rows ↔ p ∈ snap) ↔ snap.Pairwise fun p q =>
        ∀ r ∈ stored.rows, r.id = q.id → r.name ≠ p.name := by
  rw [restored_iff_found, restoreProfiles_eq, UniqueTable.saved_iff ids names, inTurn_keptFor_iff]
  exact and_iff_left (replaced_keptFor stored snap)

namespace Renamed

/-- Two profiles that were there when the snapshot was taken, and a later
one. -/
def stored : ProfileStore where
  rows := [{ id := "1", name := "home" }, { id := "2", name := "work" },
    { id := "3", name := "office" }]
  nodup := by decide
  marks := by decide

/-- `work` was called `lab`, and `home` was called `work`. -/
def moved : List Profile := [{ id := "2", name := "lab" }, { id := "1", name := "work" }]

/-- The two had each other's name. -/
def swapped : List Profile := [{ id := "2", name := "home" }, { id := "1", name := "work" }]

end Renamed

theorem moved_names_restored : (Renamed.moved.map Profile.id).Nodup ∧
      (Renamed.moved.map Profile.name).Nodup ∧
      ∀ p, p ∈ (restoreProfiles Renamed.stored Renamed.moved).rows ↔ p ∈ Renamed.moved :=
  ⟨by decide, by decide, (restore_exact_iff Renamed.stored Renamed.moved
    (by decide) (by decide)).mpr (by decide)⟩

/-- Swapped names are not restored: both saves are refused and only logged. -/
theorem swapped_names_not_restored : (Renamed.swapped.map Profile.id).Nodup ∧
      (Renamed.swapped.map Profile.name).Nodup ∧
      (restoreProfiles Renamed.stored Renamed.swapped).rows.map
          (fun p => (p.id, p.name)) = [("1", "home"), ("2", "work")] := by
  decide

end RiftRoute
