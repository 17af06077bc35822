import MigrationLint.Proofs.Letters
import MigrationLint.Proofs.Padded
import MigrationLint.Proofs.Resolution

/-!
# Comma lists in variables

A variable holds a list of names between commas, in letters of any case. What is read from it is that list, and a text
of commas and blanks alone is the empty list, not the absence of one (`ofLookup_lists`).
-/

namespace MigrationLint

open Text

/-! ## Letters of another case -/

theorem isTrimmed_toLower {s : List Char} : IsTrimmed (s.map Char.toLower) ↔ IsTrimmed s := by
  have hends : ∀ o : Option Char,
      (∀ c ∈ o.map Char.toLower, isBlank c = false) ↔ ∀ c ∈ o, isBlank c = false := by
    intro o
    cases o <;> simp [isBlank_toLower]
  constructor
  · intro h
    refine ⟨by simpa using h.ne_nil, (hends _).mp ?_, (hends _).mp ?_⟩
    · simpa only [List.head?_map] using h.first
    · simpa only [List.getLast?_map] using h.last
  · intro h
    refine ⟨by simpa using h.ne_nil, ?_, ?_⟩
    · rw [List.head?_map]
      exact (hends _).mpr h.first
    · rw [List.getLast?_map]
      exact (hends _).mpr h.last

theorem mem_toLower_iff {d : Char} (hd : d.isAlpha = false) {s : List Char} : d ∈ s.map Char.toLower ↔ d ∈ s := by
  rw [List.mem_map]
  constructor
  · intro h
    obtain ⟨c, hc, he⟩ := h
    exact (toLower_eq_iff hd).mp he ▸ hc
  · intro h
    exact ⟨d, h, (toLower_eq_iff hd).mpr rfl⟩

namespace Settings

/-! ## Items -/

/-- What can stand in a comma list as it is. -/
structure IsItem (item : String) : Prop where
  trimmed : IsTrimmed item.toList
  no_comma : ',' ∉ item.toList
  lower : lowercase item = item

/-- The text has the items between its commas, in letters of any case. -/
def Lists (items : List String) (text : String) : Prop :=
  ∃ written : List String, List.Forall₂ MigrationLint.SameLetters written items ∧
    JoinedBy ',' (written.map String.toList) text.toList

theorem IsItem.of_sameLetters {s item : String} (h : IsItem item) (hs : MigrationLint.SameLetters s item) :
    IsTrimmed s.toList ∧ ',' ∉ s.toList ∧ lowercase s = item := by
  refine ⟨?_, ?_, ?_⟩
  · rw [← isTrimmed_toLower, hs, isTrimmed_toLower]
    exact h.trimmed
  · rw [← mem_toLower_iff (by decide), hs, mem_toLower_iff (by decide)]
    exact h.no_comma
  · rw [lowercase_sameLetters hs, h.lower]

theorem commaList_eq (text : String) :
    commaList text = (((pieces (· == ',') text.toList).map trim).filter fun t => !t.isEmpty).map fun t =>
      .ofList (lower t) := by
  have hempty : ∀ t : List Char, String.ofList (lower t) = "" ↔ t = [] := by
    intro t
    rw [← lower_eq_nil_iff, ← String.toList_inj, String.toList_ofList]
    rfl
  unfold commaList
  induction (pieces (· == ',') text.toList) with
  | nil => rfl
  | cons p ps ih =>
    rw [List.map_cons, List.map_cons]
    by_cases hp : trim p = []
    · rw [List.filter_cons_of_neg (by simp [hempty, hp]), List.filter_cons_of_neg (by simp [hp]), ih]
    · rw [List.filter_cons_of_pos (by simp [hempty, hp]), List.filter_cons_of_pos (by simp [hp]), ih]
      rfl

theorem commaList_of_lists {items : List String} {text : String} (hitems : ∀ item ∈ items, IsItem item)
    (h : Lists items text) : commaList text = items := by
  obtain ⟨written, hsame, hjoins⟩ := h
  have hwritten : (∀ s ∈ written, IsTrimmed s.toList ∧ ',' ∉ s.toList) ∧ written.map lowercase = items := by
    clear hjoins
    induction hsame with
    | nil => exact ⟨by simp, rfl⟩
    | cons hs _ ih =>
      rw [List.forall_mem_cons] at hitems
      obtain ⟨htrimmed, hcomma, hlower⟩ := hitems.1.of_sameLetters hs
      obtain ⟨hrest, hmap⟩ := ih hitems.2
      exact ⟨List.forall_mem_cons.mpr ⟨⟨htrimmed, hcomma⟩, hrest⟩, by rw [List.map_cons, hlower, hmap]⟩
  have hpieces := hjoins.pieces (by decide) (by simpa using fun s hs => (hwritten.1 s hs).2)
  rw [commaList_eq, hpieces.trimmed (by simpa using fun s hs => (hwritten.1 s hs).1), List.map_map]
  exact hwritten.2

theorem lists_nil {text : String} (h : ∀ c ∈ text.toList, c = ',' ∨ isBlank c = true) : Lists [] text := by
  refine ⟨[], .nil, pieces (· == ',') text.toList, ?_, (intercalate_pieces ',' _).symm⟩
  have hblank : ∀ p ∈ pieces (· == ',') text.toList, IsBlankText p := by
    intro p hp c hc
    have hsub : c ∈ (pieces (· == ',') text.toList).flatten := List.mem_flatten.mpr ⟨p, hp, hc⟩
    rw [flatten_pieces, List.mem_filter] at hsub
    exact (h c hsub.1).resolve_left (by simpa using hsub.2)
  generalize pieces (· == ',') text.toList = ps at hblank
  induction ps with
  | nil => exact .nil
  | cons p ps ih =>
    rw [List.forall_mem_cons] at hblank
    exact .blank hblank.1 (ih hblank.2)

/-! ## Variables -/

/-- The variable that a field is read from. -/
def variableOf : SetField → String
  | .allowedSchemas => allowedVariable
  | .blockedSchemas => blockedVariable
  | .allowedExtensions => extensionsVariable

theorem items?_ofLookup (lookup : String → Option String) (field : SetField) :
    (ofLookup lookup).items? field = ((lookup (variableOf field)).filter (· ≠ "")).map commaList := by
  cases field <;> rfl

theorem requiredPrefix_ofLookup (lookup : String → Option String) :
    (ofLookup lookup).requiredPrefix = (lookup prefixVariable).filter (· ≠ "") := rfl

theorem variableOf_injective {field other : SetField} (h : variableOf field = variableOf other) : field = other := by
  revert h
  cases field <;> cases other <;> decide

theorem prefixVariable_ne (field : SetField) : prefixVariable ≠ variableOf field := by
  cases field <;> decide

theorem ofLookup_sameBut {lookup lookup' : String → Option String} {field : SetField}
    (h : ∀ name, name ≠ variableOf field → lookup' name = lookup name) :
    (ofLookup lookup).SameBut (.set field) (ofLookup lookup') where
  requiredPrefix _ := by
    rw [requiredPrefix_ofLookup, requiredPrefix_ofLookup, h _ (prefixVariable_ne field)]
  items other hne := by
    have hother : variableOf other ≠ variableOf field := fun he => hne (by rw [variableOf_injective he])
    rw [items?_ofLookup, items?_ofLookup, h _ hother]

theorem items?_of_lists {items : List String} {text : String} (hitems : ∀ item ∈ items, IsItem item)
    (h : Lists items text) (hne : text ≠ "") {lookup : String → Option String} {field : SetField}
    (hlookup : lookup (variableOf field) = some text) : (ofLookup lookup).items? field = some items := by
  rw [items?_ofLookup, hlookup, Option.filter_some_pos (by simpa using hne), Option.map_some,
    commaList_of_lists hitems h]

theorem items?_eq_none_iff {lookup : String → Option String} {field : SetField} :
    (ofLookup lookup).items? field = none ↔
      lookup (variableOf field) = none ∨ lookup (variableOf field) = some "" := by
  rw [items?_ofLookup, Option.map_eq_none_iff]
  cases lookup (variableOf field) with
  | none => simp
  | some text => by_cases h : text = "" <;> simp [h, Option.filter]

/-- **Comma lists.** A variable that is not empty sets its field to the items it lists, in their order and as often as
they stand there, and no other field. With commas and blanks alone it sets the field to no items, and only if it is
unset or empty it does not set it. -/
theorem ofLookup_lists :
    (∀ (field : SetField) (items : List String) (text : String) (lookup lookup' : String → Option String),
      (∀ item ∈ items, IsItem item) → Lists items text → text ≠ "" → lookup' (variableOf field) = some text →
        (∀ name, name ≠ variableOf field → lookup' name = lookup name) →
          (ofLookup lookup').items? field = some items ∧ (ofLookup lookup).SameBut (.set field) (ofLookup lookup')) ∧
    (∀ (field : SetField) (text : String) (lookup : String → Option String),
      text ≠ "" → (∀ c ∈ text.toList, c = ',' ∨ isBlank c = true) → lookup (variableOf field) = some text →
        (ofLookup lookup).items? field = some []) ∧
    ∀ (field : SetField) (lookup : String → Option String),
      (ofLookup lookup).items? field = none ↔
        lookup (variableOf field) = none ∨ lookup (variableOf field) = some "" := by
  refine ⟨fun field items text lookup lookup' hitems hlists hne hlookup hothers => ⟨?_, ?_⟩,
    fun field text lookup hne hblank hlookup => ?_, fun field lookup => items?_eq_none_iff⟩
  · exact items?_of_lists hitems hlists hne hlookup
  · exact ofLookup_sameBut hothers
  · exact items?_of_lists (by simp) (lists_nil hblank) hne hlookup

/-- A repeated name in letters of two cases, between blank items; then a list of blank items alone. -/
theorem ofLookup_lists_repeated :
    let text := ", Auth\u2003,,aPP,auth,\t"
    let lookup : String → Option String := fun name => if name = prefixVariable then some "cb_" else none
    let listing := fun name => if name = blockedVariable then some text else lookup name
    let blank := fun name => if name = allowedVariable then some " ,\n" else lookup name
    (ofLookup listing).blockedSchemas = some ["auth", "app", "auth"] ∧
      (ofLookup lookup).SameBut (.set .blockedSchemas) (ofLookup listing) ∧
      (ofLookup blank).allowedSchemas = some [] ∧ (ofLookup lookup).allowedSchemas = none := by
  intro text lookup listing blank
  have hitems : ∀ item ∈ ["auth", "app", "auth"], IsItem item := by
    intro item hitem
    have hplain : ∀ item ∈ ["auth", "app", "auth"],
        IsTrimmed item.toList ∧ ',' ∉ item.toList ∧ lowercase item = item := by decide
    obtain ⟨htrimmed, hcomma, hlower⟩ := hplain item hitem
    exact ⟨htrimmed, hcomma, hlower⟩
  have hpadded : Padded [['A', 'u', 't', 'h'], ['a', 'P', 'P'], ['a', 'u', 't', 'h']]
      [[], " Auth\u2003".toList, [], "aPP".toList, "auth".toList, ['\t']] :=
    .blank (by decide) (.item (a := [' ']) (b := ['\u2003']) (by decide) (by decide) (.blank (by decide)
      (.item (a := []) (b := []) (by decide) (by decide)
        (.item (a := []) (b := []) (by decide) (by decide) (.blank (by decide) .nil)))))
  have hlists : Lists ["auth", "app", "auth"] text :=
    ⟨["Auth", "aPP", "auth"], .cons (by decide) (.cons (by decide) (.cons (by decide) .nil)), _, hpadded, by decide⟩
  obtain ⟨hlisted, hsame⟩ := ofLookup_lists.1 .blockedSchemas ["auth", "app", "auth"] text lookup listing hitems hlists
    (by decide) rfl fun name hname => if_neg hname
  exact ⟨hlisted, hsame, ofLookup_lists.2.1 .allowedSchemas " ,\n" blank (by decide) (forall_of_all (by decide)) rfl,
    (ofLookup_lists.2.2 .allowedSchemas lookup).mpr (.inl rfl)⟩

end Settings

end MigrationLint
