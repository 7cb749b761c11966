/-
Module: RiftRoute.Provider.PfRules
Purpose: Policy rules on macOS, kept as rule texts in a packet filter anchor:
  how a rule is rendered, printed, parsed back and added, and the words of the
  three shapes of rules RiftRoute makes.
Trusted boundary: human-reviewed spec
-/
import RiftRoute.Routing.Selection
import RiftRoute.Safety.Protocol

namespace RiftRoute

namespace Mac

open Netip (Prefix parsePrefix parseAddr)
open Texts (after contains words unwords lines unlines trimSpace)

/-! ### Rendering -/

def pfOwnerLabel : String := "riftroute"

/-- One owned rule's text. -/
def renderPFRule (r : PolicyRule) : String :=
  let af := if r.family = some .v6 then "inet6" else "inet"
  let target :=
    if r.routeToGW ≠ "" then "(" ++ r.routeToIface ++ " " ++ r.routeToGW ++ ")"
    else r.routeToIface
  let sel :=
    if "to ".toList.isPrefixOf r.selector.toList then
      "from any " ++ r.selector
    else if "user ".toList.isPrefixOf r.selector.toList then
      "from any to any " ++ r.selector
    else r.selector
  if target = "" then
    -- a user's traffic to what Tailscale routes, ahead of the user's route-to
    "pass out quick " ++ af ++ " " ++ sel ++ " label \"" ++ pfOwnerLabel ++ "\""
  else
    "pass out quick route-to " ++ target ++ " " ++ af ++ " " ++ sel ++
      " label \"" ++ pfOwnerLabel ++ "\""

def sortByKey (rules : List PolicyRule) : List PolicyRule :=
  List.insertionSort (fun a b => ¬ (ruleKey b).text < (ruleKey a).text) rules

/-- The anchor's whole rule set. -/
def renderAnchor (rules : List PolicyRule) : String := unlines ((sortByKey rules).map renderPFRule)

/-! ### The packet filter

What `pfctl` keeps of a rule set, and what `pfctl -sr` prints. -/

/-- The rules of an anchor, as they were loaded. -/
abbrev Anchor := List String

def pfctlLoad (text : String) : Anchor := (lines text).filter (· ≠ "")

/-- Where a listed rule has its state flags, if it has them. -/
inductive StateFlags where
  | hidden
  | beforeLabel
  | atEnd
deriving DecidableEq, Repr

/-- How the host lists rules: the users by their numbers, and the flags. -/
structure PfListing where
  /-- The numeric id a user is known by. -/
  uid : String → Nat
  flags : StateFlags

/-- The words of a destination: a single address has no length, and a
destination of length zero is everything. -/
def echoDestination (dst : String) : List String :=
  if dst = "any" then ["all"]
  else
    match parsePrefix dst with
    | none => ["from", "any", "to", dst]
    | some p =>
      if p.bits = 0 then ["all"]
      else if p.bits = p.addr.bitLen then ["from", "any", "to", p.addr.text]
      else ["from", "any", "to", dst]

def PfListing.echoWords (host : PfListing) : List String → List String
  | "from" :: "any" :: "to" :: dst :: rest =>
    echoDestination dst ++ host.echoWords rest
  | "user" :: user :: rest =>
    "user" :: "=" :: (host.uid user).repr :: host.echoWords rest
  | word :: rest => word :: host.echoWords rest
  | [] => []

def stateWords : List String := ["flags", "S/SA", "keep", "state"]

def StateFlags.place (flags : StateFlags) (ws : List String) : List String :=
  match flags with
  | .hidden => ws
  | .beforeLabel =>
    ws.takeWhile (· ≠ "label") ++ stateWords ++ ws.dropWhile (· ≠ "label")
  | .atEnd => ws ++ stateWords

def PfListing.echo (host : PfListing) (line : String) : String :=
  unwords (host.flags.place (host.echoWords (words line)))

/-- The output of `pfctl -a riftroute -sr`. -/
def PfListing.shown (host : PfListing) (anchor : Anchor) : String := unlines (anchor.map host.echo)

/-! ### Reading the listing -/

/-- The value of a line's `label "…"`. -/
def extractLabel (line : String) : Option String :=
  match after "label \"".toList line.toList with
  | none => none
  | some rest =>
    if '"' ∈ rest then some (String.ofList (rest.takeWhile (· ≠ '"')))
    else none

/-- White space in a pattern. -/
def isBlank (c : Char) : Bool := c ∈ ['\t', '\n', '\x0c', '\r', ' ']

/-- The target of a `route-to` that starts here: in parentheses, or a run
without white space. -/
def routeToHere (s : List Char) : Option (List Char) :=
  if ¬ "route-to".toList.isPrefixOf s then none
  else
    let rest := s.drop "route-to".length
    let target := rest.dropWhile isBlank
    let run := target.takeWhile fun c => !isBlank c
    let bare := if run = [] then none else some run
    if ¬ rest.head?.any isBlank then none
    else
      match target with
      | '(' :: inner =>
        let within := inner.takeWhile (· ≠ ')')
        if ')' ∈ inner ∧ within ≠ [] then some within else bare
      | _ => bare

/-- The first `route-to` of a line that has a target. -/
def findRouteTo : List Char → Option (List Char)
  | [] => none
  | c :: rest => (routeToHere (c :: rest)).or (findRouteTo rest)

/-- The full length that is left out of a single address is put back. -/
def normalizePFDst (dst : String) : String :=
  if '/' ∈ dst.toList then dst
  else
    match parseAddr dst with
    | none => dst
    | some a => a.text ++ "/" ++ toString a.bitLen

/-- The value after `user`, with or without an equals sign. -/
def userValue (value : String) (rest : List String) : String :=
  match rest with
  | next :: _ => if value = "=" then next else value
  | [] => value

/-- The first user of a line's words. -/
def userField : List String → Option String
  | [] => none
  | word :: rest =>
    match rest with
    | value :: more =>
      if word = "user" then some (userValue value more)
      else userField rest
    | [] => none

/-- The first destination of a line's words that is not `any`. -/
def toField : List String → Option String
  | [] => none
  | word :: rest =>
    match rest with
    | dst :: _ =>
      if word = "to" ∧ dst ≠ "any" then some dst else toField rest
    | [] => none

def lineFamily (line : String) : Family :=
  if contains " inet6 ".toList line.toList then .v6 else .v4

/-- The destination and the user of a pass, as the words are gone through. -/
def passFields : String × String → List String → String × String
  | found, [] => found
  | found, word :: rest =>
    match rest with
    | [] => found
    | value :: more =>
      if word = "to" ∧ value ≠ "any" ∧ found.1 = "" then
        passFields (normalizePFDst value, found.2) rest
      else if word = "user" then
        passFields (found.1, userValue value more) rest
      else passFields found rest

/-- A pass without route-to. -/
def parsePFPassText (line : String) : Option PolicyRule :=
  if ¬ "pass ".toList.isPrefixOf (trimSpace line).toList then none
  else
    let found := passFields ("", "") (words line)
    if found.1 = "" ∨ found.2 = "" then none
    else
      some
        { priority := tailscaleRulePrio
          selector := "to " ++ found.1 ++ " user " ++ found.2
          family := some (lineFamily line)
          proto := "riftroute" }

def parsePFRuleText (line : String) : Option PolicyRule :=
  match findRouteTo line.toList with
  | none =>
    if contains "route-to".toList line.toList then none
    else parsePFPassText line
  | some raw =>
    match words (String.ofList raw) with
    | [] => none
    | iface :: more =>
      let steer := fun selector : String =>
        ({ priority := modelBRulePrio, selector := selector
           family := some (lineFamily line), proto := "riftroute"
           routeToIface := iface, routeToGW := more.headD "" } : PolicyRule)
      match userField (words line) with
      | some user => some (steer ("user " ++ user))
      | none =>
        (toField (words line)).map fun dst =>
          steer ("to " ++ normalizePFDst dst)

def readLine (line : String) : Option PolicyRule :=
  if extractLabel line = some pfOwnerLabel then parsePFRuleText line else none

def parseAnchorRules (out : String) : List PolicyRule :=
  firsts ruleKey [] ((lines out).filterMap readLine)

/-! ### Changing the anchor -/

def PfListing.readAnchor (host : PfListing) (anchor : Anchor) : List PolicyRule :=
  parseAnchorRules (host.shown anchor)

def PfListing.listRules (host : PfListing) (anchor : Anchor) (fam : Family) : List PolicyRule :=
  (host.readAnchor anchor).filter fun r => r.family = some fam

def PfListing.addRule (host : PfListing) (anchor : Anchor) (mr : ManagedRule) :
    Except String Anchor :=
  if trimSpace mr.rule.routeToIface = "" ∧ mr.rule.priority ≠ tailscaleRulePrio
  then
    .error ("macos: policy rule " ++ mr.rule.selector.quote ++ " has no route-to interface")
  else
    let cur := host.readAnchor anchor
    if ruleKey mr.rule ∈ cur.map ruleKey then .ok anchor
    else .ok (pfctlLoad (renderAnchor (cur ++ [mr.rule])))

open List Texts

/-! ### The shapes of rules -/

inductive Shape where
  | dest (fam : Family) (iface gw : String) (dst : Prefix)
  | user (fam : Family) (iface gw who : String)
  | pass (fam : Family) (dst : Prefix) (who : String)

namespace Shape

def steer (fam : Family) (iface gw selector : String) : PolicyRule :=
  { priority := modelBRulePrio, selector := selector, family := some fam
    proto := "riftroute", routeToIface := iface, routeToGW := gw }

def rule : Shape → PolicyRule
  | .dest fam iface gw dst => steer fam iface gw ("to " ++ dst.text)
  | .user fam iface gw who => steer fam iface gw ("user " ++ who)
  | .pass fam dst who =>
    { priority := tailscaleRulePrio
      selector := "to " ++ dst.text ++ " user " ++ who
      family := some fam, proto := "riftroute" }

end Shape

/-- An interface name as macOS makes them, a driver's name and a unit. -/
structure MacInterface (name : String) : Prop where
  letters : ∀ c ∈ name.toList, c.isAlphanum
  unit : name.toList.any Char.isDigit
  other : name ≠ "inet6"

/-- The characters of names and addresses. -/
def nameChar (c : Char) : Bool := c.isAlphanum || c ∈ ['.', ':', '%', '/', '-', '_', '(', ')', '=']

def Gateway (gw : String) : Prop := ∀ c ∈ gw.toList, c.isAlphanum ∨ c ∈ ['.', ':', '%']

namespace Shape

def Valid : Shape → Prop
  | .dest _ iface gw _ => MacInterface iface ∧ Gateway gw
  | .user _ iface gw who =>
    MacInterface iface ∧ Gateway gw ∧ isUIDLike who
  | .pass _ _ who => isUIDLike who

end Shape

/-! ### Words that no scan stops at -/

/-- The words a scan of a rule looks for. -/
def markers : List String := ["user", "to", "from", "label", "inet6"]

/-- A word that is passed over. -/
structure Inert (w : String) : Prop where
  some : w ≠ ""
  chars : ∀ c ∈ w.toList, nameChar c
  apart : w ∉ markers

variable {c : Char}

theorem nameChar_plain (name : nameChar c) : isSpace c = false ∧ c ≠ '"' := by
  rw [nameChar, Bool.or_eq_true] at name
  rcases name with letter | sign
  · refine ⟨not_isSpace_of_isAlphanum letter, ?_⟩
    rintro rfl
    exact absurd letter (by decide)
  · have every : ['.', ':', '%', '/', '-', '_', '(', ')', '='].all fun d =>
        isSpace d = false ∧ d ≠ '"' := by
      decide
    exact of_decide_eq_true (all_eq_true.mp every c (of_decide_eq_true sign))

namespace Inert

variable {w : String}

theorem word (inert : Inert w) : Word w :=
  ⟨inert.some, fun c member => (nameChar_plain (inert.chars c member)).1⟩

theorem of_char {c : Char} (inside : c ∈ w.toList) (chars : ∀ d ∈ w.toList, nameChar d)
    (apart : ∀ m ∈ markers, c ∉ m.toList) : Inert w where
  some := by
    rintro rfl
    cases inside
  chars := chars
  apart := fun member => apart w member inside

theorem of_class {allowed : Char → Prop} (some : w ≠ "") (chars : ∀ c ∈ w.toList, allowed c)
    (names : ∀ c, allowed c → nameChar c)
    (apart : ∀ m ∈ markers, ∃ c ∈ m.toList, ¬ allowed c) : Inert w where
  some := some
  chars := fun c member => names c (chars c member)
  apart := by
    intro member
    obtain ⟨c, inside, refused⟩ := apart w member
    exact refused (chars c inside)

end Inert

theorem MacInterface.inert {name : String} (mac : MacInterface name) : Inert name where
  some := by
    rintro rfl
    have unit := mac.unit
    cases unit
  chars := by
    intro c member
    rw [nameChar, mac.letters c member, Bool.true_or]
  apart := by
    intro member
    have undigited : ∀ m ∈ markers, m = "inet6" ∨ m.toList.any Char.isDigit = false := by
      decide
    rcases undigited name member with same | none
    · exact mac.other same
    · rw [mac.unit] at none
      cases none

theorem nameChar_of_alphanum (letter : c.isAlphanum) : nameChar c := by
  rw [nameChar, letter, Bool.true_or]

theorem nameChar_of_gateway (part : c.isAlphanum ∨ c ∈ ['.', ':', '%']) : nameChar c := by
  rcases part with letter | sign
  · exact nameChar_of_alphanum letter
  · have every : ['.', ':', '%'].all nameChar := by decide
    exact all_eq_true.mp every c sign

theorem inert_open {name : String} (mac : MacInterface name) : Inert ("(" ++ name) := by
  refine Inert.of_char (c := '(') ?_ ?_ (by decide)
  · rw [String.toList_append]
    exact mem_append_left _ (by decide)
  · intro c member
    rw [String.toList_append, mem_append] at member
    rcases member with sign | letter
    · have only : c = '(' := by simpa using sign
      exact only ▸ by decide
    · exact nameChar_of_alphanum (mac.letters c letter)

theorem inert_close {gw : String} (gateway : Gateway gw) : Inert (gw ++ ")") := by
  refine Inert.of_char (c := ')') ?_ ?_ (by decide)
  · rw [String.toList_append]
    exact mem_append_right _ (by decide)
  · intro c member
    rw [String.toList_append, mem_append] at member
    rcases member with part | sign
    · exact nameChar_of_gateway (gateway c part)
    · have only : c = ')' := by simpa using sign
      exact only ▸ by decide

/-- The characters of a destination. -/
def AddressChar (c : Char) : Prop := c = '.' ∨ c = ':' ∨ c = '/' ∨ (Netip.hexDigit c).isSome

theorem addressChar_addr {p : Prefix} (member : c ∈ p.addr.text.toList) : AddressChar c := by
  rcases Netip.mem_text p.zoneFree member with dot | colon | hex
  · exact .inl dot
  · exact .inr (.inl colon)
  · exact .inr (.inr (.inr hex))

theorem addressChar_text {p : Prefix} (member : c ∈ p.text.toList) : AddressChar c := by
  rw [Prefix.text, String.toList_append, String.toList_append,
    mem_append, mem_append] at member
  rcases member with (address | slash) | digit
  · exact addressChar_addr address
  · exact .inr (.inr (.inl (by simpa using slash)))
  · exact .inr (.inr (.inr (Netip.hexDigit_of_isDigit (isDigit_of_mem_natRepr digit))))

theorem inert_address {w : String} (some : w ≠ "")
    (chars : ∀ c ∈ w.toList, AddressChar c) : Inert w := by
  refine Inert.of_class some chars ?_ ?_
  · rintro c (rfl | rfl | rfl | hex)
    · decide
    · decide
    · decide
    · exact nameChar_of_alphanum (Netip.isAlphanum_of_hexDigit hex)
  · intro m member
    simp only [markers, mem_cons, not_mem_nil, or_false] at member
    rcases member with rfl | rfl | rfl | rfl | rfl
    · exact ⟨'u', by decide, by unfold AddressChar; decide⟩
    · exact ⟨'t', by decide, by unfold AddressChar; decide⟩
    · exact ⟨'r', by decide, by unfold AddressChar; decide⟩
    · exact ⟨'l', by decide, by unfold AddressChar; decide⟩
    · exact ⟨'n', by decide, by unfold AddressChar; decide⟩

theorem inert_uid (n : Nat) : Inert n.repr := by
  refine inert_address ?_ fun c member =>
    .inr (.inr (.inr (Netip.hexDigit_of_isDigit (isDigit_of_mem_natRepr member))))
  intro empty
  have digits := Netip.repr_toList n
  rw [empty] at digits
  exact Nat.toDigits_ne_nil digits.symm

variable (p : Prefix)

/-- How a destination that is not everything is listed. -/
def shownDst : String :=
  if p.bits = p.addr.bitLen then p.addr.text else p.text

theorem text_ne_empty : p.text ≠ "" := by
  intro empty
  have slash := congrArg String.toList empty
  rw [Prefix.text, String.toList_append, String.toList_append] at slash
  simp at slash

theorem addressChar_shownDst : ∀ c ∈ (shownDst p).toList, AddressChar c := by
  unfold shownDst
  split
  · exact fun _ => addressChar_addr
  · exact fun _ => addressChar_text

theorem inert_shownDst : Inert (shownDst p) := by
  refine inert_address ?_ (addressChar_shownDst p)
  unfold shownDst
  split
  · exact p.addr.text_ne_empty
  · exact text_ne_empty p

theorem ne_any_of_address {w : String} (chars : ∀ c ∈ w.toList, AddressChar c) : w ≠ "any" := by
  rintro rfl
  have letter := chars 'n' (by decide)
  unfold AddressChar at letter
  exact absurd letter (by decide)

theorem normalizePFDst_shownDst : normalizePFDst (shownDst p) = p.text := by
  unfold shownDst
  split
  case isTrue full =>
    rw [normalizePFDst, if_neg (Netip.slash_not_mem_text p.zoneFree),
      Netip.parseAddr_text]
    dsimp only
    rw [← full]
    rfl
  case isFalse =>
    have slash : '/' ∈ p.text.toList := by
      rw [Prefix.text, String.toList_append, String.toList_append]
      simp
    rw [normalizePFDst, if_pos slash]

/-! ### The words of a rule -/

def afWord (fam : Family) : String := if fam = .v6 then "inet6" else "inet"

def targetWords (iface gw : String) : List String :=
  if gw = "" then [iface] else ["(" ++ iface, gw ++ ")"]

def labelWords : List String := ["label", "\"riftroute\""]

namespace Shape

def family : Shape → Family
  | .dest fam _ _ _ | .user fam _ _ _ | .pass fam _ _ => fam

/-- What stands before the address family. -/
def lead : Shape → List String
  | .dest _ iface gw _ | .user _ iface gw _ =>
    ["pass", "out", "quick", "route-to"] ++ targetWords iface gw
  | .pass _ _ _ => ["pass", "out", "quick"]

/-- What stands before the selector. -/
def opening (s : Shape) : List String := s.lead ++ [afWord s.family]

def selects : Shape → List String
  | .dest _ _ _ dst => ["from", "any", "to", dst.text]
  | .user _ _ _ who => ["from", "any", "to", "any", "user", who]
  | .pass _ dst who => ["from", "any", "to", dst.text, "user", who]

def dstWords (dst : Prefix) : List String :=
  if dst.bits = 0 then ["all"] else ["from", "any", "to", shownDst dst]

def shows (host : PfListing) : Shape → List String
  | .dest _ _ _ dst => dstWords dst
  | .user _ _ _ who => ["all", "user", "=", (host.uid who).repr]
  | .pass _ dst who => dstWords dst ++ ["user", "=", (host.uid who).repr]

end Shape

theorem inert_targetWords {iface gw : String} (mac : MacInterface iface)
    (gateway : Gateway gw) : ∀ w ∈ targetWords iface gw, Inert w := by
  unfold targetWords
  split
  · rw [forall_mem_singleton]
    exact mac.inert
  · rw [forall_mem_cons, forall_mem_singleton]
    exact ⟨inert_open mac, inert_close gateway⟩

theorem inert_literal {w : String} (member : w ∈ ["pass", "out", "quick",
    "route-to", "inet", "any", "all", "=", "flags", "S/SA", "keep", "state"]) :
    Inert w := by
  have every : ∀ w ∈ ["pass", "out", "quick", "route-to", "inet", "any", "all",
      "=", "flags", "S/SA", "keep", "state"],
      w ≠ "" ∧ w.toList.all nameChar ∧ w ∉ markers := by
    decide
  obtain ⟨some, chars, apart⟩ := every w member
  exact ⟨some, all_eq_true.mp chars, apart⟩

theorem inert_lead {s : Shape} (valid : s.Valid) : ∀ w ∈ s.lead, Inert w := by
  have literal : ∀ w ∈ ["pass", "out", "quick", "route-to"], Inert w :=
    fun w member => inert_literal (mem_append_left
      ["inet", "any", "all", "=", "flags", "S/SA", "keep", "state"] member)
  cases s with
  | dest fam iface gw dst =>
    exact forall_mem_append.mpr ⟨literal, inert_targetWords valid.1 valid.2⟩
  | user fam iface gw who =>
    exact forall_mem_append.mpr ⟨literal, inert_targetWords valid.1 valid.2.1⟩
  | pass fam dst who =>
    exact fun w member => literal w (mem_append_left ["route-to"] member)

/-! ### Rendered and listed -/

open Shape

theorem renderPFRule_steer {fam : Family} {iface gw selector : String}
    {sel : List String} (mac : MacInterface iface)
    (selected : (if "to ".toList.isPrefixOf selector.toList then
        "from any " ++ selector
      else if "user ".toList.isPrefixOf selector.toList then
        "from any to any " ++ selector
      else selector) = unwords sel) (any : sel ≠ []) :
    renderPFRule (steer fam iface gw selector) =
      unwords (["pass", "out", "quick", "route-to"] ++ targetWords iface gw ++
        [afWord fam] ++ sel ++ labelWords) := by
  have target : (if gw ≠ "" then "(" ++ iface ++ " " ++ gw ++ ")"
      else iface) = unwords (targetWords iface gw) := by
    unfold targetWords
    by_cases none : gw = ""
    · rw [if_neg (not_not.mpr none), if_pos none, unwords_singleton]
    · rw [if_pos none, if_neg none, unwords_cons, unwords_singleton]
      simp only [String.append_assoc]
  have shown : unwords (targetWords iface gw) ≠ "" := by
    intro empty
    have inside := mac.inert.some
    rw [← target] at empty
    split at empty
    · have chars := congrArg String.toList empty
      simp at chars
    · exact inside empty
  have words : targetWords iface gw ≠ [] := by
    unfold targetWords
    split <;> exact cons_ne_nil _ _
  have af : (if some fam = some Family.v6 then "inet6" else "inet") = afWord fam := by
    cases fam <;> rfl
  unfold renderPFRule steer
  rw [selected, target, af, if_neg shown]
  rw [unwords_append (by simp) (by decide), unwords_append (by simp) any,
    unwords_append (by simp) (by simp),
    unwords_append (by simp) words, unwords_singleton]
  rw [← String.toList_inj]
  simp [unwords, joinOn, labelWords, pfOwnerLabel]

theorem prefix_to (text : String) : "to ".toList.isPrefixOf ("to " ++ text).toList = true := by
  simp

theorem prefix_user (who : String) : "to ".toList.isPrefixOf ("user " ++ who).toList = false ∧
      "user ".toList.isPrefixOf ("user " ++ who).toList = true := by
  constructor
  · rw [String.toList_append]
    rfl
  · simp

namespace Shape

/-- The words a rule is rendered as. -/
def written (s : Shape) : List String := s.opening ++ s.selects ++ labelWords

end Shape

theorem renderPFRule_shape {s : Shape} (valid : s.Valid) :
    renderPFRule s.rule = unwords s.written := by
  cases s with
  | dest fam iface gw dst =>
    refine renderPFRule_steer valid.1 ?_ (cons_ne_nil _ _)
    rw [if_pos (prefix_to dst.text), ← String.toList_inj]
    simp [selects, unwords, joinOn]
  | user fam iface gw who =>
    refine renderPFRule_steer valid.1 ?_ (cons_ne_nil _ _)
    obtain ⟨other, own⟩ := prefix_user who
    rw [if_neg (by rw [other]; exact Bool.false_ne_true), if_pos own, ← String.toList_inj]
    simp [selects, unwords, joinOn]
  | pass fam dst who =>
    have starts : "to ".toList.isPrefixOf ("to " ++ dst.text ++ " user " ++ who).toList = true := by
      rw [String.append_assoc, String.append_assoc]
      exact prefix_to _
    have af : (if some fam = some Family.v6 then "inet6" else "inet") = afWord fam := by
      cases fam <;> rfl
    have untargeted : (if "" ≠ "" then "(" ++ "" ++ " " ++ "" ++ ")"
        else "") = "" := rfl
    unfold renderPFRule rule
    rw [if_pos starts, af, untargeted, if_pos rfl, ← String.toList_inj]
    simp [unwords, joinOn, labelWords, pfOwnerLabel, written,
      opening, lead, family, selects]

section Echo

variable {host : PfListing} {s : Shape}

theorem echoWords_skip {front : List String}
    (inert : ∀ w ∈ front, w ≠ "from" ∧ w ≠ "user") (rest : List String) :
    host.echoWords (front ++ rest) = front ++ host.echoWords rest := by
  induction front with
  | nil => rfl
  | cons w front ih =>
    obtain ⟨⟨notFrom, notUser⟩, later⟩ := forall_mem_cons.mp inert
    rw [cons_append, PfListing.echoWords.eq_def]
    split
    case h_1 same => exact absurd (List.cons.inj same).1 notFrom
    case h_2 same => exact absurd (List.cons.inj same).1 notUser
    case h_3 same =>
      obtain ⟨rfl, rfl⟩ := List.cons.inj same
      rw [ih later]
      rfl
    case h_4 same => cases same

theorem echoDestination_text (p : Prefix) : echoDestination p.text = dstWords p := by
  have slash : p.text ≠ "any" := ne_any_of_address fun _ => addressChar_text
  rw [echoDestination, if_neg slash, Netip.parsePrefix_text, dstWords]
  dsimp only
  split
  · rfl
  · unfold shownDst
    split <;> rfl

theorem echoWords_selects :
    host.echoWords (s.selects ++ labelWords) = s.shows host ++ labelWords := by
  have ends : host.echoWords labelWords = labelWords := rfl
  have named : ∀ who, host.echoWords (["user", who] ++ labelWords) =
      ["user", "=", (host.uid who).repr] ++ labelWords := fun _ => rfl
  cases s with
  | dest fam iface gw dst =>
    change echoDestination dst.text ++ host.echoWords labelWords = _
    rw [echoDestination_text, ends]
    rfl
  | user fam iface gw who =>
    rfl
  | pass fam dst who =>
    change echoDestination dst.text ++ host.echoWords (["user", who] ++ labelWords) = _
    rw [echoDestination_text, named]
    rw [shows, append_assoc]

/-- What follows the selector in the listing. -/
def trailer : StateFlags → List String
  | .hidden => labelWords
  | .beforeLabel => stateWords ++ labelWords
  | .atEnd => labelWords ++ stateWords

theorem place_labelled (flags : StateFlags) {front : List String}
    (free : ∀ w ∈ front, w ≠ "label") :
    flags.place (front ++ labelWords) = front ++ trailer flags := by
  have passed : ∀ w ∈ front, decide (w ≠ "label") = true := fun w member =>
    decide_eq_true (free w member)
  cases flags with
  | hidden => rfl
  | beforeLabel =>
    have stops : labelWords.takeWhile (· ≠ "label") = [] ∧
        labelWords.dropWhile (· ≠ "label") = labelWords := by
      decide
    rw [StateFlags.place, takeWhile_append_of_pos passed,
      dropWhile_append_of_pos passed, stops.1, stops.2,
      append_nil, append_assoc]
    rfl
  | atEnd =>
    rw [StateFlags.place, append_assoc]
    rfl

/-- A word of a rule before its label. -/
def Known (w : String) : Prop := Inert w ∨ w ∈ ["from", "to", "user", "inet6"]

theorem Known.plain {w : String} (known : Known w) : Word w ∧ '"' ∉ w.toList ∧ w ≠ "label" := by
  rcases known with inert | marker
  · refine ⟨inert.word, fun inside => ?_, ?_⟩
    · exact (nameChar_plain (inert.chars _ inside)).2 rfl
    · rintro rfl
      exact inert.apart (by decide)
  · have every : ∀ w ∈ ["from", "to", "user", "inet6"], Word w ∧ '"' ∉ w.toList ∧ w ≠ "label" := by
      decide
    exact every w marker

theorem known_af (fam : Family) : Known (afWord fam) := by
  cases fam with
  | v4 => exact .inl (inert_literal (by decide))
  | v6 => exact .inr (by decide)

theorem known_opening (valid : s.Valid) : ∀ w ∈ s.opening, Known w := by
  refine forall_mem_append.mpr ⟨fun w member => .inl (inert_lead valid w member), ?_⟩
  rw [forall_mem_singleton]
  exact known_af s.family

theorem word_uid {who : String} (user : isUIDLike who) : Word who := by
  obtain ⟨some, chars⟩ := of_decide_eq_true user
  refine ⟨some, fun c member => (nameChar_plain ?_).1⟩
  have part := of_decide_eq_true (all_eq_true.mp chars c member)
  rcases part with letter | rfl | rfl | rfl
  · exact nameChar_of_alphanum letter
  · decide
  · decide
  · decide

/-- The words of a listed selector are fixed ones, a destination and a number. -/
theorem forall_mem_shows {Q : String → Prop} (host : PfListing)
    (fixed : ∀ w ∈ ["from", "any", "to", "all", "user", "="], Q w)
    (shown : ∀ p : Prefix, Q (shownDst p)) (uid : ∀ n : Nat, Q n.repr) (s : Shape) :
    ∀ w ∈ s.shows host, Q w := by
  have dst : ∀ p, ∀ w ∈ dstWords p, Q w := by
    intro p
    unfold dstWords
    split
    · simp_all
    · simp_all
  cases s with
  | dest fam iface gw p => exact dst p
  | user fam iface gw who => simp_all [shows]
  | pass fam p who => exact forall_mem_append.mpr ⟨dst p, by simp_all⟩

theorem known_shows (host : PfListing) (s : Shape) : ∀ w ∈ s.shows host, Known w := by
  refine forall_mem_shows host ?_ (fun p => .inl (inert_shownDst p)) (fun n => .inl (inert_uid n)) s
  simp only [forall_mem_cons, not_mem_nil, false_implies, implies_true, and_true]
  exact ⟨.inr (by decide), .inl (inert_literal (by decide)), .inr (by decide),
    .inl (inert_literal (by decide)), .inr (by decide), .inl (inert_literal (by decide))⟩

theorem word_written (valid : s.Valid) : ∀ w ∈ s.written, Word w := by
  have address : ∀ p : Prefix, Word p.text := fun p =>
    (inert_address (text_ne_empty p) fun _ => addressChar_text).word
  have literal : ∀ w ∈ ["from", "any", "to", "user"] ++ labelWords, Word w := by
    decide
  unfold written
  rw [forall_mem_append, forall_mem_append]
  refine ⟨⟨fun w member => (known_opening valid w member).plain.1, ?_⟩,
    fun w member => literal w (mem_append_right _ member)⟩
  cases s with
  | dest fam iface gw dst => simp_all [selects]
  | user fam iface gw who => simp_all [selects, word_uid valid.2.2]
  | pass fam dst who => simp_all [selects, word_uid valid]

/-- The words before the label in the listing. -/
def Shape.front (host : PfListing) (s : Shape) : List String := s.opening ++ s.shows host

theorem known_front (valid : s.Valid) : ∀ w ∈ s.front host, Known w :=
  forall_mem_append.mpr ⟨known_opening valid, known_shows host s⟩

theorem echo_shape (valid : s.Valid) : host.echo (renderPFRule s.rule) =
      unwords (s.front host ++ trailer host.flags) := by
  have skipped : ∀ w ∈ s.opening, w ≠ "from" ∧ w ≠ "user" := by
    refine forall_mem_append.mpr ⟨fun w member => ?_, ?_⟩
    · have inert := inert_lead valid w member
      constructor
      · rintro rfl
        exact inert.apart (by decide)
      · rintro rfl
        exact inert.apart (by decide)
    · rw [forall_mem_singleton]
      cases s.family <;> decide
  rw [PfListing.echo, renderPFRule_shape valid,
    words_unwords (word_written valid), written,
    append_assoc, echoWords_skip skipped, echoWords_selects,
    ← append_assoc]
  exact congrArg unwords (place_labelled host.flags fun w member =>
    (known_front valid w member).plain.2.2)

end Echo

end Mac

end RiftRoute
