/-
Module: RiftRoute.Provider.PfReading
Purpose: One PF rule, loaded, listed and parsed.  It is read back as the same
  rule with its user by number, or not at all when its destination is
  everything.
Trusted boundary: human-reviewed spec
-/
import RiftRoute.Provider.PfRules

namespace RiftRoute

namespace Mac

open List hiding contains
open Shape

open Netip (Prefix)
open Texts (after contains Word words unwords trimSpace isSpace)

namespace Shape

/-- What a rule is read back as. -/
def listed (host : PfListing) : Shape → Option Shape
  | .dest fam iface gw dst =>
    if dst.bits = 0 then none else some (.dest fam iface gw dst)
  | .user fam iface gw who =>
    some (.user fam iface gw (host.uid who).repr)
  | .pass fam dst who =>
    if dst.bits = 0 then none
    else some (.pass fam dst (host.uid who).repr)

end Shape

/-! ### The label -/

theorem extractLabel_of_toList (front : List String) (more : List Char)
    {line : String} (free : ∀ w ∈ front, '"' ∉ w.toList)
    (shape : line.toList = (unwords front).toList ++
      ' ' :: ("label ".toList ++ '"' :: ("riftroute".toList ++ '"' :: more))) :
    extractLabel line = some pfOwnerLabel := by
  have before : '"' ∉ (unwords front).toList ++ [' '] := by
    rw [mem_append, not_or]
    refine ⟨fun inside => ?_, by decide⟩
    rcases Texts.mem_unwords inside with blank | ⟨w, member, here⟩
    · exact absurd blank (by decide)
    · exact free w member here
  have once : '"' ∉ "label ".toList := by decide
  have pattern : "label \"".toList = "label ".toList ++ ['"'] := rfl
  have found : after "label \"".toList line.toList = some ("riftroute".toList ++ '"' :: more) := by
    have regroup : ∀ text : List Char, (unwords front).toList ++ ' ' :: text =
        (unwords front).toList ++ [' '] ++ text := by
      simp
    rw [shape, pattern, regroup]
    exact Texts.after_first before once
  rw [extractLabel, found]
  rfl

theorem unwords_label : (unwords labelWords).toList =
    "label ".toList ++ '"' :: ("riftroute".toList ++ ['"']) := by
  decide

theorem extractLabel_listed (flags : StateFlags) {front : List String}
    (some : front ≠ []) (free : ∀ w ∈ front, '"' ∉ w.toList) :
    extractLabel (unwords (front ++ trailer flags)) = Option.some pfOwnerLabel := by
  have state : ∀ w ∈ stateWords, '"' ∉ w.toList := by decide
  have labelled : labelWords ≠ [] := cons_ne_nil _ _
  cases flags with
  | hidden =>
    refine extractLabel_of_toList front [] free ?_
    rw [trailer, Texts.unwords_append some labelled, String.toList_append,
      String.toList_append, unwords_label, append_assoc]
    rfl
  | beforeLabel =>
    refine extractLabel_of_toList (front ++ stateWords) []
      (forall_mem_append.mpr ⟨free, state⟩) ?_
    rw [trailer, ← append_assoc,
      Texts.unwords_append (append_ne_nil_of_left_ne_nil some _) labelled,
      String.toList_append, String.toList_append, unwords_label,
      append_assoc]
    rfl
  | atEnd =>
    refine extractLabel_of_toList front (' ' :: (unwords stateWords).toList) free ?_
    rw [trailer, Texts.unwords_append some (by decide), Texts.unwords_append labelled (by decide)]
    simp only [String.toList_append, unwords_label, append_assoc,
      cons_append, nil_append]
    rfl

/-! ### The target -/

theorem findRouteTo_skip {before : List Char} (free : 'r' ∉ before)
    (rest : List Char) : findRouteTo (before ++ rest) = findRouteTo rest := by
  induction before with
  | nil => rfl
  | cons c before ih =>
    rw [mem_cons, not_or] at free
    have elsewhere : routeToHere (c :: (before ++ rest)) = none := by
      have spelled : "route-to".toList = 'r' :: "oute-to".toList := rfl
      have differs : ('r' == c) = false := beq_false_of_ne free.1
      rw [routeToHere, spelled, List.isPrefixOf, differs, Bool.false_and, if_pos Bool.false_ne_true]
    rw [cons_append, findRouteTo, elsewhere, Option.none_or, ih free.2]

theorem findRouteTo_none {s : List Char} (free : '-' ∉ s) :
    findRouteTo s = none ∧ contains "route-to".toList s = false := by
  have absent : ∀ {s : List Char}, '-' ∉ s → ¬ "route-to".toList <+: s := by
    intro s free starts
    exact free (starts.subset (by decide))
  constructor
  · induction s with
    | nil => rfl
    | cons c rest ih =>
      have here : routeToHere (c :: rest) = none := by
        rw [routeToHere, if_pos]
        rw [List.isPrefixOf_iff_prefix]
        exact absent free
      rw [findRouteTo, here, Option.none_or]
      exact ih fun later =>
        free (mem_cons_of_mem _ later)
  · rw [← Bool.not_eq_true, Texts.contains_iff]
    exact fun occurs => free (occurs.subset (by decide))

theorem isBlank_of_alphanum {c : Char} (letter : c.isAlphanum) : isBlank c = false := by
  rw [← Bool.not_eq_true]
  intro blank
  have every : ['\t', '\n', '\x0c', '\r', ' '].all fun d =>
      !d.isAlphanum := by
    decide
  have other := all_eq_true.mp every c (of_decide_eq_true blank)
  rw [letter] at other
  cases other

section Target

variable {iface gw : String} {more : List Char}

theorem routeToHere_bare (mac : MacInterface iface) :
    routeToHere ("route-to ".toList ++ (iface.toList ++ ' ' :: more)) = some iface.toList := by
  have starts : "route-to".toList.isPrefixOf
      ("route-to ".toList ++ (iface.toList ++ ' ' :: more)) := rfl
  have rest : ("route-to ".toList ++ (iface.toList ++ ' ' :: more)).drop
      "route-to".length = ' ' :: (iface.toList ++ ' ' :: more) := rfl
  have some : iface.toList ≠ [] := by
    rw [ne_eq, String.toList_eq_nil_iff]
    exact mac.inert.some
  have solid : ∀ c ∈ iface.toList, isBlank c = false := fun c member =>
    isBlank_of_alphanum (mac.letters c member)
  have run : (iface.toList ++ ' ' :: more).takeWhile (fun c => !isBlank c) = iface.toList := by
    rw [takeWhile_append_of_pos (fun c member => by
        rw [solid c member]; rfl),
      takeWhile_cons_of_neg (by decide), append_nil]
  cases letters : iface.toList with
  | nil => exact absurd letters some
  | cons c name =>
    have letter : c.isAlphanum := by
      apply mac.letters c
      rw [letters]
      exact mem_cons_self
    have target : (' ' :: (iface.toList ++ ' ' :: more)).dropWhile isBlank =
        iface.toList ++ ' ' :: more := by
      rw [dropWhile_cons_of_pos (by decide), letters, cons_append,
        dropWhile_cons_of_neg]
      rw [isBlank_of_alphanum letter]
      exact Bool.false_ne_true
    have unparenthesized : c ≠ '(' := by
      rintro rfl
      exact absurd letter (by decide)
    have blank : (' ' :: (iface.toList ++ ' ' :: more)).head?.any isBlank = true := rfl
    rw [routeToHere, if_neg (not_not.mpr (letters ▸ starts)), ← letters]
    dsimp only
    rw [rest, target, run, if_neg some, if_neg (not_not.mpr blank), letters]
    split
    case h_1 same =>
      exact absurd (List.cons.inj same).1 unparenthesized
    case h_2 => rfl

theorem routeToHere_gateway (mac : MacInterface iface) (gateway : Gateway gw) :
    routeToHere ("route-to ".toList ++ ('(' :: (iface.toList ++ ' ' :: gw.toList) ++ ')' :: more)) =
      some (iface.toList ++ ' ' :: gw.toList) := by
  have open_ : ∀ c ∈ iface.toList ++ ' ' :: gw.toList, decide (c ≠ ')') = true := by
    intro c member
    refine decide_eq_true ?_
    rintro rfl
    rcases mem_append.mp member with letter | rest
    · exact absurd (mac.letters _ letter) (by decide)
    · rcases mem_cons.mp rest with same | part
      · exact absurd same (by decide)
      · exact absurd (gateway _ part) (by decide)
  have within : ((iface.toList ++ ' ' :: gw.toList) ++ ')' :: more).takeWhile
      (· ≠ ')') = iface.toList ++ ' ' :: gw.toList := by
    rw [takeWhile_append_of_pos open_, takeWhile_cons_of_neg (by decide), append_nil]
  have closed : ')' ∈ (iface.toList ++ ' ' :: gw.toList) ++ ')' :: more :=
    mem_append_right _ mem_cons_self
  have some : iface.toList ++ ' ' :: gw.toList ≠ [] :=
    append_ne_nil_of_right_ne_nil _ (cons_ne_nil _ _)
  change (if ')' ∈ (iface.toList ++ ' ' :: gw.toList) ++ ')' :: more ∧
      ((iface.toList ++ ' ' :: gw.toList) ++ ')' :: more).takeWhile (· ≠ ')') ≠ [] then
      Option.some (((iface.toList ++ ' ' :: gw.toList) ++ ')' :: more).takeWhile
        (· ≠ ')')) else _) = _
  rw [within, if_pos ⟨closed, some⟩]

theorem findRouteTo_target (mac : MacInterface iface) (gateway : Gateway gw)
    {line : String} (shape : line.toList = "pass out quick ".toList ++ ("route-to ".toList ++
        ((unwords (targetWords iface gw)).toList ++ ' ' :: more))) :
    ∃ raw, findRouteTo line.toList = some raw ∧
      words (String.ofList raw) = iface :: if gw = "" then [] else [gw] := by
  have skip : 'r' ∉ "pass out quick ".toList := by decide
  have here : ∀ {target : List Char} {raw : List Char},
      routeToHere ("route-to ".toList ++ target) = some raw →
      findRouteTo ("route-to ".toList ++ target) = some raw := by
    intro target raw found
    have spelled : "route-to ".toList ++ target = 'r' :: ("oute-to ".toList ++ target) := rfl
    rw [spelled] at found ⊢
    rw [findRouteTo, found]
    rfl
  rw [shape, findRouteTo_skip skip]
  by_cases none : gw = ""
  · refine ⟨iface.toList, here ?_, ?_⟩
    · rw [targetWords, if_pos none, Texts.unwords_singleton]
      exact routeToHere_bare mac
    · have whole := Texts.words_unwords (forall_mem_singleton.mpr mac.inert.word)
      rw [Texts.unwords_singleton] at whole
      rw [String.ofList_toList, whole, if_pos none]
  · refine ⟨iface.toList ++ ' ' :: gw.toList, here ?_, ?_⟩
    · have spelled : (unwords (targetWords iface gw)).toList ++ ' ' :: more =
          '(' :: (iface.toList ++ ' ' :: gw.toList) ++ ')' :: ' ' :: more := by
        rw [targetWords, if_neg none, Texts.unwords_cons, Texts.unwords_singleton]
        simp
      rw [spelled]
      exact routeToHere_gateway mac gateway
    · have gwWord : Word gw := ⟨none, fun c member =>
        (nameChar_plain (nameChar_of_gateway (gateway c member))).1⟩
      have each : ∀ w ∈ [iface, gw], Word w := forall_mem_cons.mpr
        ⟨mac.inert.word, forall_mem_singleton.mpr gwWord⟩
      have pair := Texts.words_unwords each
      have spelled : unwords [iface, gw] = String.ofList (iface.toList ++ ' ' :: gw.toList) := by
        simp [unwords, Texts.joinOn]
      rw [← spelled, pair, if_neg none]

end Target

/-! ### The fields -/

section Fields

variable {front rest : List String}

theorem userField_skip (other : ∀ w ∈ front, w ≠ "user") (some : rest ≠ []) :
    userField (front ++ rest) = userField rest := by
  induction front with
  | nil => rfl
  | cons w front ih =>
    obtain ⟨here, later⟩ := forall_mem_cons.mp other
    rw [cons_append, userField.eq_def]
    dsimp only
    split
    case h_1 => rw [if_neg here, ← ih later]
    case h_2 empty => simp [some] at empty

theorem toField_skip (other : ∀ w ∈ front, w ≠ "to") (some : rest ≠ []) :
    toField (front ++ rest) = toField rest := by
  induction front with
  | nil => rfl
  | cons w front ih =>
    obtain ⟨here, later⟩ := forall_mem_cons.mp other
    rw [cons_append, toField.eq_def]
    dsimp only
    split
    case h_1 =>
      rw [if_neg fun both => here both.1, ← ih later]
    case h_2 empty => simp [some] at empty

theorem passFields_skip (other : ∀ w ∈ front, w ≠ "to" ∧ w ≠ "user")
    (some : rest ≠ []) (found : String × String) :
    passFields found (front ++ rest) = passFields found rest := by
  induction front with
  | nil => rfl
  | cons w front ih =>
    obtain ⟨⟨notTo, notUser⟩, later⟩ := forall_mem_cons.mp other
    rw [cons_append, passFields.eq_def]
    dsimp only
    split
    case h_1 empty => simp [some] at empty
    case h_2 =>
      rw [if_neg fun all => notTo all.1, if_neg notUser, ← ih later]

theorem trailer_ne_nil (flags : StateFlags) : trailer flags ≠ [] := by
  cases flags <;> exact cons_ne_nil _ _

theorem userField_trailer (flags : StateFlags) : userField (trailer flags) = none := by
  cases flags <;> decide

theorem toField_trailer (flags : StateFlags) : toField (trailer flags) = none := by
  cases flags <;> decide

theorem passFields_trailer (flags : StateFlags) (found : String × String) :
    passFields found (trailer flags) = found := by
  cases flags <;> simp [trailer, labelWords, stateWords, passFields]

theorem Inert.ne {w m : String} (inert : Inert w) (marker : m ∈ markers) : w ≠ m := by
  rintro rfl
  exact inert.apart marker

theorem opening_ne {s : Shape} (valid : s.Valid) {m : String}
    (marker : m ∈ ["user", "to"]) : ∀ w ∈ s.opening, w ≠ m := by
  refine forall_mem_append.mpr ⟨fun w member => ?_, ?_⟩
  · exact (inert_lead valid w member).ne (mem_append_left ["from", "label", "inet6"] marker)
  · rw [forall_mem_singleton]
    have every : ∀ fam, ∀ m ∈ ["user", "to"], afWord fam ≠ m := by
      intro fam
      cases fam <;> decide
    exact every s.family m marker

end Fields

/-! ### One rule read back -/

section Reading

variable {host : PfListing} {s : Shape}

theorem word_trailer (flags : StateFlags) : ∀ w ∈ trailer flags, Word w := by
  cases flags <;> decide

theorem word_listed (valid : s.Valid) : ∀ w ∈ s.front host ++ trailer host.flags, Word w :=
  forall_mem_append.mpr ⟨fun w member => (known_front valid w member).plain.1,
      word_trailer host.flags⟩

theorem ne_inet6_of_shows : ∀ w ∈ s.shows host, w ≠ "inet6" :=
  forall_mem_shows host (by decide) (fun p => (inert_shownDst p).ne (by decide))
    (fun n => (inert_uid n).ne (by decide)) s

theorem lineFamily_listed (valid : s.Valid) :
    lineFamily (unwords (s.front host ++ trailer host.flags)) = s.family := by
  have spelled : " inet6 ".toList = ' ' :: ("inet6".toList ++ [' ']) := rfl
  have word : Word "inet6" := by decide
  have lead : s.lead ≠ [] := by
    cases s <;> exact cons_ne_nil _ _
  have cut : s.front host ++ trailer host.flags =
      s.lead ++ afWord s.family :: (s.shows host ++ trailer host.flags) := by
    simp [front, opening]
  have each : ∀ w ∈ s.front host ++ trailer host.flags, Word w := word_listed valid
  have occurs := Texts.contains_blank_iff each word
  rw [lineFamily, spelled]
  cases family : s.family with
  | v6 =>
    rw [if_pos]
    refine occurs.mpr ⟨s.lead, s.shows host ++ trailer host.flags, ?_, lead,
      append_ne_nil_of_right_ne_nil _ (trailer_ne_nil _)⟩
    rw [cut, family]
    rfl
  | v4 =>
    rw [if_neg]
    intro found
    obtain ⟨front, back, same, _⟩ := occurs.mp found
    have member : "inet6" ∈ s.lead ++ afWord s.family :: (s.shows host ++ trailer host.flags) := by
      rw [← cut, same]
      simp
    rw [family, mem_append, mem_cons, mem_append] at member
    rcases member with inside | same | inside | inside
    · exact (inert_lead valid _ inside).ne (by decide) rfl
    · exact absurd same (by decide)
    · exact ne_inet6_of_shows _ inside rfl
    · have absent : ∀ flags, "inet6" ∉ trailer flags := by
        intro flags
        cases flags <;> decide
      exact absent _ inside

theorem steered_toList (iface gw : String) {rest : List String} (any : rest ≠ []) :
    (unwords (["pass", "out", "quick", "route-to"] ++ targetWords iface gw ++ rest)).toList =
      "pass out quick ".toList ++ ("route-to ".toList ++ ((unwords (targetWords iface gw)).toList ++
          ' ' :: (unwords rest).toList)) := by
  have target : targetWords iface gw ≠ [] := by
    unfold targetWords
    split <;> exact cons_ne_nil _ _
  have lead : unwords ["pass", "out", "quick", "route-to"] = "pass out quick route-to" := by
    decide
  rw [Texts.unwords_append (by simp) any, Texts.unwords_append (cons_ne_nil _ _) target, lead]
  simp

variable {fam : Family} {iface : String}

theorem parsePFRuleText_steered {gw : String} {rest : List String} {line : String}
    (mac : MacInterface iface)
    (gateway : Gateway gw) (any : rest ≠ [])
    (shape : line = unwords (["pass", "out", "quick", "route-to"] ++ targetWords iface gw ++ rest))
    (family : lineFamily line = fam) :
    parsePFRuleText line = match userField (words line) with
      | some who => some (steer fam iface gw ("user " ++ who))
      | none =>
        (toField (words line)).map fun dst =>
          steer fam iface gw ("to " ++ normalizePFDst dst) := by
  obtain ⟨raw, found, target⟩ := findRouteTo_target mac gateway
    (shape ▸ steered_toList iface gw any)
  have gatewayRead : (if gw = "" then [] else [gw]).headD "" = gw := by
    split
    case isTrue none => exact none.symm
    case isFalse => rfl
  rw [parsePFRuleText, found]
  dsimp only
  rw [target]
  dsimp only
  rw [family, gatewayRead]
  rfl

variable {p : Prefix}

theorem front_dest {gw : String} : (dest fam iface gw p).front host ++ trailer host.flags =
      ["pass", "out", "quick", "route-to"] ++ targetWords iface gw ++
        ([afWord fam] ++ dstWords p ++ trailer host.flags) := by
  simp [front, opening, lead, family, shows]

theorem readLine_dest {gw : String} (valid : (dest fam iface gw p).Valid) :
    parsePFRuleText (unwords ((dest fam iface gw p).front host ++ trailer host.flags)) =
      ((dest fam iface gw p).listed host).map rule := by
  have userFree := opening_ne valid (m := "user") (by decide)
  have toFree := opening_ne valid (m := "to") (by decide)
  have last := trailer_ne_nil host.flags
  rw [parsePFRuleText_steered valid.1 valid.2 (by simp)
    (congrArg unwords front_dest) (lineFamily_listed valid),
    Texts.words_unwords (word_listed valid), front, append_assoc,
    userField_skip userFree (append_ne_nil_of_right_ne_nil _ last),
    toField_skip toFree (append_ne_nil_of_right_ne_nil _ last)]
  unfold shows dstWords listed
  dsimp only
  by_cases zero : p.bits = 0
  · rw [if_pos zero, if_pos zero, userField_skip (by decide) last,
      toField_skip (by decide) last, userField_trailer, toField_trailer]
    rfl
  · have inert := inert_shownDst p
    have others : ∀ w ∈ ["from", "any", "to", shownDst p], w ≠ "user" := by
      simp only [forall_mem_cons, not_mem_nil, false_implies, implies_true, and_true]
      exact ⟨by decide, by decide, by decide, inert.ne (by decide)⟩
    have notAny : shownDst p ≠ "any" := ne_any_of_address (addressChar_shownDst p)
    rw [if_neg zero, if_neg zero, userField_skip others last, userField_trailer]
    have found : toField (["from", "any", "to", shownDst p] ++
        trailer host.flags) = some (shownDst p) := by
      change toField (["from", "any"] ++ ("to" :: shownDst p :: trailer host.flags)) = _
      rw [toField_skip (by decide) (cons_ne_nil _ _), toField, if_pos ⟨rfl, notAny⟩]
    rw [found]
    dsimp only [Option.map_some]
    rw [normalizePFDst_shownDst]
    rfl

theorem readLine_user {gw who : String} (valid : (user fam iface gw who).Valid) :
    parsePFRuleText (unwords ((user fam iface gw who).front host ++ trailer host.flags)) =
      ((user fam iface gw who).listed host).map rule := by
  have userFree := opening_ne valid (m := "user") (by decide)
  have shape : (user fam iface gw who).front host ++ trailer host.flags =
      ["pass", "out", "quick", "route-to"] ++ targetWords iface gw ++
        ([afWord fam, "all", "user", "=", (host.uid who).repr] ++ trailer host.flags) := by
    simp [front, opening, lead, family, shows]
  have found : userField (["all", "user", "=", (host.uid who).repr] ++
      trailer host.flags) = some (host.uid who).repr := rfl
  rw [parsePFRuleText_steered valid.1 valid.2.1 (by simp)
    (congrArg unwords shape) (lineFamily_listed valid),
    Texts.words_unwords (word_listed valid), front, append_assoc,
    userField_skip userFree (by simp [shows]), shows, found]
  rfl

theorem dash_not_mem_pass {who : String} :
    '-' ∉ (unwords ((pass fam p who).front host ++ trailer host.flags)).toList := by
  have address : ¬ AddressChar '-' := by
    unfold AddressChar
    decide
  have shown : ∀ w ∈ (pass fam p who).shows host, '-' ∉ w.toList :=
    forall_mem_shows host (by decide) (fun p inside => address (addressChar_shownDst p _ inside))
      (fun _ inside => absurd (Texts.isDigit_of_mem_natRepr inside) (by decide)) _
  have opening : ∀ w ∈ ["pass", "out", "quick"] ++ [afWord fam], '-' ∉ w.toList := by
    cases fam <;> decide
  have ending : ∀ w ∈ trailer host.flags, '-' ∉ w.toList := by
    cases host.flags <;> decide
  intro member
  rcases Texts.mem_unwords member with blank | ⟨w, listed, inside⟩
  · exact absurd blank (by decide)
  · rw [front, mem_append, mem_append] at listed
    rcases listed with (lead | shows) | last
    · exact opening w lead inside
    · exact shown w shows inside
    · exact ending w last inside

theorem trimSpace_pass (more : List Char) {line : String}
    (shape : line.toList = "pass ".toList ++ 'o' :: more) :
    "pass ".toList.isPrefixOf (trimSpace line).toList := by
  have left : line.toList.dropWhile isSpace = line.toList := by
    rw [shape]
    rfl
  have right : ∃ kept, line.toList.reverse.dropWhile isSpace =
      kept ++ 'o' :: "pass ".toList.reverse := by
    rw [shape, reverse_append, reverse_cons, append_assoc,
      singleton_append, dropWhile_append]
    split
    · exact ⟨[], rfl⟩
    · exact ⟨_, rfl⟩
  obtain ⟨kept, dropped⟩ := right
  rw [trimSpace, String.toList_ofList, left, dropped, List.isPrefixOf_iff_prefix]
  exact ⟨'o' :: kept.reverse, by simp⟩

theorem passFields_named (found : String × String) (n : Nat) (flags : StateFlags) :
    passFields found (["user", "=", n.repr] ++ trailer flags) = (found.1, n.repr) := by
  have inert := inert_uid n
  have others : ∀ w ∈ ["=", n.repr], w ≠ "to" ∧ w ≠ "user" := by
    simp only [forall_mem_cons, not_mem_nil, false_implies, implies_true, and_true]
    exact ⟨by decide, inert.ne (by decide), inert.ne (by decide)⟩
  have stepped : passFields found (["user", "=", n.repr] ++ trailer flags) =
      passFields (found.1, n.repr) (["=", n.repr] ++ trailer flags) := rfl
  rw [stepped, passFields_skip others (trailer_ne_nil flags), passFields_trailer]

theorem passFields_listed (p : Prefix) (n : Nat) (flags : StateFlags) :
    passFields ("", "") (dstWords p ++ (["user", "=", n.repr] ++ trailer flags)) =
      (if p.bits = 0 then "" else p.text, n.repr) := by
  have more : ["user", "=", n.repr] ++ trailer flags ≠ [] := cons_ne_nil _ _
  unfold dstWords
  by_cases zero : p.bits = 0
  · rw [if_pos zero, if_pos zero, passFields_skip (by decide) more, passFields_named]
  · have inert := inert_shownDst p
    have notAny : shownDst p ≠ "any" := ne_any_of_address (addressChar_shownDst p)
    have others : ∀ w ∈ [shownDst p], w ≠ "to" ∧ w ≠ "user" := by
      rw [forall_mem_singleton]
      exact ⟨inert.ne (by decide), inert.ne (by decide)⟩
    rw [if_neg zero, if_neg zero]
    change passFields ("", "") (["from", "any"] ++ ("to" :: shownDst p ::
      (["user", "=", n.repr] ++ trailer flags))) = _
    rw [passFields_skip (by decide) (cons_ne_nil _ _), passFields,
      if_pos ⟨rfl, notAny, rfl⟩, normalizePFDst_shownDst]
    change passFields (p.text, "") ([shownDst p] ++ (["user", "=", n.repr] ++ trailer flags)) = _
    rw [passFields_skip others more, passFields_named]

theorem readLine_pass {who : String} (valid : (pass fam p who).Valid) :
    parsePFRuleText (unwords ((pass fam p who).front host ++ trailer host.flags)) =
      ((pass fam p who).listed host).map rule := by
  have undashed : '-' ∉ (unwords ((pass fam p who).front host ++
      trailer host.flags)).toList := dash_not_mem_pass
  obtain ⟨none, absent⟩ := findRouteTo_none undashed
  have others : ∀ w ∈ (pass fam p who).opening, w ≠ "to" ∧ w ≠ "user" := fun w member =>
    ⟨opening_ne valid (m := "to") (by decide) w member,
      opening_ne valid (m := "user") (by decide) w member⟩
  have fields : words (unwords ((pass fam p who).front host ++
      trailer host.flags)) = (pass fam p who).opening ++
        (dstWords p ++ (["user", "=", (host.uid who).repr] ++ trailer host.flags)) := by
    rw [Texts.words_unwords (word_listed valid)]
    simp [front, shows]
  have some : dstWords p ++ (["user", "=", (host.uid who).repr] ++ trailer host.flags) ≠ [] :=
    append_ne_nil_of_right_ne_nil _ (cons_ne_nil _ _)
  have starts : "pass ".toList.isPrefixOf (trimSpace (unwords
      ((pass fam p who).front host ++ trailer host.flags))).toList := by
    refine trimSpace_pass ("ut ".toList ++ (unwords ("quick" ::
      ([afWord fam] ++ (pass fam p who).shows host ++ trailer host.flags))).toList) ?_
    have cut : (pass fam p who).front host ++ trailer host.flags =
        "pass" :: "out" :: "quick" :: ([afWord fam] ++
          (pass fam p who).shows host ++ trailer host.flags) := by
      simp [front, opening, lead, family]
    rw [cut, Texts.unwords_cons, Texts.unwords_cons]
    simp
  rw [parsePFRuleText, none]
  rw [absent, if_neg Bool.false_ne_true, parsePFPassText, if_neg (not_not.mpr starts)]
  rw [fields, passFields_skip others some, passFields_listed, lineFamily_listed valid, listed]
  by_cases zero : p.bits = 0
  · rw [if_pos zero, if_pos zero, if_pos (.inl rfl)]
    rfl
  · have shown : ¬ (p.text = "" ∨ (host.uid who).repr = "") := by
      rw [not_or]
      exact ⟨text_ne_empty p, (inert_uid _).some⟩
    rw [if_neg zero, if_neg zero, if_neg shown]
    rfl

/-- **A rule, loaded and listed, is read back** as the same rule with its user
by number, or not at all when its destination is everything. -/
theorem readLine_echo (host : PfListing) {s : Shape} (valid : s.Valid) :
    readLine (host.echo (renderPFRule s.rule)) = (s.listed host).map rule := by
  have labelled : extractLabel (unwords (s.front host ++ trailer host.flags)) =
      some pfOwnerLabel := by
    refine extractLabel_listed host.flags ?_ fun w member =>
      (known_front valid w member).plain.2.1
    cases s <;> exact cons_ne_nil _ _
  rw [echo_shape valid, readLine, if_pos labelled]
  cases s with
  | dest fam iface gw p => exact readLine_dest valid
  | user fam iface gw who => exact readLine_user valid
  | pass fam p who => exact readLine_pass valid

end Reading

end Mac

end RiftRoute
