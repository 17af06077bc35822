import MigrationLint.Policy.File
import MigrationLint.Proofs.Reports

/-!
# Texts of policy files

A policy file is read by the names of its members (`Settings.ofText_spelled`): their order, other members, blanks and
escapes do not matter, and a field that is null counts as absent. A field that is given twice is refused.
-/

namespace MigrationLint

namespace Json

/-- The values of the members of a name. -/
def valuesOf (ms : List (String × Json)) (name : String) : List Json := (ms.filter (·.1 = name)).map Prod.snd

/-- A field and the values of its name: it is absent, null, or there once. -/
inductive HoldsField {α : Type} (encode : α → Json) : Option α → List Json → Prop
  | absent : HoldsField encode none []
  | null : HoldsField encode none [.null]
  | value (x : α) : HoldsField encode (some x) [encode x]

def ofStrings (xs : List String) : Json := .array (xs.map ofString)

theorem member?_of_values (ms : List (String × Json)) (name : String) :
    member? (ms.map fun m => (some m.1, m.2)) name =
      match valuesOf ms name with
      | [] => some none
      | [v] => some (some v)
      | _ => none := by
  have hfilter : (ms.map fun m => (some m.1, m.2)).filter (·.1 == some name) =
      (ms.filter (·.1 = name)).map fun m => (some m.1, m.2) := by
    rw [List.filter_map]
    congr 1
  rw [member?, hfilter, valuesOf]
  generalize ms.filter (·.1 = name) = held
  rcases held with _ | ⟨m, _ | ⟨m', held⟩⟩ <;> rfl

theorem HoldsField.read {α : Type} {encode : α → Json} {x : Option α} {ms : List (String × Json)} {name : String}
    (h : HoldsField encode x (valuesOf ms name)) {read : Json → Option α}
    (hread : ∀ a, encode a ≠ .null ∧ read (encode a) = some a) :
    ∃ field, member? (ms.map fun m => (some m.1, m.2)) name = some field ∧ optional? read field = some x := by
  rw [member?_of_values]
  generalize valuesOf ms name = values at h
  cases h with
  | absent => exact ⟨none, rfl, rfl⟩
  | null => exact ⟨some .null, rfl, rfl⟩
  | value a =>
    obtain ⟨hnull, ha⟩ := hread a
    refine ⟨some (encode a), rfl, ?_⟩
    rw [optional?, ha]
    · rfl
    · exact hnull

theorem string?_ofString (s : String) : ofString s ≠ .null ∧ string? (ofString s) = some s :=
  ⟨fun h => (by cases h), rfl⟩

theorem list?_ofStrings (xs : List String) : ofStrings xs ≠ .null ∧ list? string? (ofStrings xs) = some xs := by
  refine ⟨fun h => (by cases h), ?_⟩
  have hread : xs.mapM (string? ∘ ofString) = some (xs.map id) := mapM_some fun x _ => (string?_ofString x).2
  rw [ofStrings, list?, List.mapM_map, hread, List.map_id]

theorem mapM_eq_none {α β : Type} {f : α → Option β} {l : List α} {a : α} (ha : a ∈ l) (h : f a = none) :
    l.mapM f = none := by
  induction l with
  | nil => cases ha
  | cons b l ih =>
    rw [List.mapM_cons]
    rcases List.mem_cons.mp ha with rfl | ha
    · rw [h]
      rfl
    · rw [ih ha]
      cases f b <;> rfl

theorem fields?_repeated {ms : List (Option String × Json)} {names : List String} {name : String} (hname : name ∈ names)
    (h : 2 ≤ ms.countP (·.1 = some name)) : (object ms).fields? names = none := by
  have hmember : member? ms name = none := by
    have hlength : 2 ≤ (ms.filter (·.1 == some name)).length := by
      rw [← List.countP_eq_length_filter]
      calc
        2 ≤ ms.countP (·.1 = some name) := h
        _ = ms.countP (·.1 == some name) := List.countP_congr fun m _ => by simp
    rw [member?]
    generalize ms.filter (·.1 == some name) = held at hlength
    rcases held with _ | ⟨m, _ | ⟨m', held⟩⟩
    · cases hlength
    · exact absurd hlength (by simp)
    · rfl
  rw [fields?]
  split
  · exact mapM_eq_none hname hmember
  · rfl

end Json

namespace Settings

/-- The members hold the settings; members of other names may stand among them. -/
structure HeldBy (f : Settings) (ms : List (String × Json)) : Prop where
  requiredPrefix : Json.HoldsField Json.ofString f.requiredPrefix (Json.valuesOf ms "requiredPrefix")
  allowedSchemas : Json.HoldsField Json.ofStrings f.allowedSchemas (Json.valuesOf ms "allowedSchemas")
  blockedSchemas : Json.HoldsField Json.ofStrings f.blockedSchemas (Json.valuesOf ms "blockedSchemas")
  allowedExtensions : Json.HoldsField Json.ofStrings f.allowedExtensions (Json.valuesOf ms "allowedExtensions")

theorem HeldBy.ofJson? {f : Settings} {ms : List (String × Json)} (h : f.HeldBy ms) :
    Settings.ofJson? (.record ms) = some f := by
  obtain ⟨required, hrequired, hprefix⟩ := h.requiredPrefix.read Json.string?_ofString
  obtain ⟨allowed, hallowed, hschemas⟩ := h.allowedSchemas.read Json.list?_ofStrings
  obtain ⟨blocked, hblocked, hblockedSchemas⟩ := h.blockedSchemas.read Json.list?_ofStrings
  obtain ⟨extensions, hextensions, hallowedExtensions⟩ := h.allowedExtensions.read Json.list?_ofStrings
  have hfields : (Json.record ms).fields? fieldNames = some [required, allowed, blocked, extensions] := by
    have hnames : (ms.map fun m => (some m.1, m.2)).all (·.1.isSome) = true := by simp
    rw [Json.record, Json.fields?, if_pos hnames]
    simp [fieldNames, hrequired, hallowed, hblocked, hextensions]
  unfold Settings.ofJson?
  simp [hfields, hprefix, hschemas, hblockedSchemas, hallowedExtensions]

theorem ofText_of_spelled (refusal : String → String) {j : Json} {text : String}
    (h : Json.SpellsAlone j text.toList) :
    ofText refusal text = match ofJson? j with
      | some s => .ok s
      | none => .error (.invalidFile (refusal text)) := by
  rw [ofText, h.parse?]
  rfl

/-- **Texts of policy files.** Every text of an object that holds the settings is read as just these settings: with its
members in any order and any others among them, with any blanks and escapes, and with absent fields left out or null.
An object that has a field twice is refused, whatever else it holds. -/
theorem ofText_spelled (refusal : String → String) :
    (∀ (f : Settings) (ms : List (String × Json)) (text : String),
      f.HeldBy ms → Json.SpellsAlone (.record ms) text.toList → ofText refusal text = .ok f) ∧
    ∀ (ms : List (Option String × Json)) (name text : String),
      name ∈ ["requiredPrefix", "allowedSchemas", "blockedSchemas", "allowedExtensions"] →
        2 ≤ ms.countP (·.1 = some name) → Json.SpellsAlone (.object ms) text.toList →
          ofText refusal text = .error (.invalidFile (refusal text)) := by
  refine ⟨fun f ms text hf ht => ?_, fun ms name text hname htwice ht => ?_⟩
  · rw [ofText_of_spelled refusal ht, hf.ofJson?]
  · have hnone : ofJson? (.object ms) = none := by
      have hfields : (Json.object ms).fields? fieldNames = none := Json.fields?_repeated hname htwice
      unfold ofJson?
      rw [hfields]
      rfl
    rw [ofText_of_spelled refusal ht, hnone]

/-- An unknown member in front, an escape in a name, a pair of code units, a null; and one name spelled in two ways. -/
theorem ofText_spelled_escapes :
    let f : Settings := ⟨some "app_", some ["😀", "b"], none, none⟩
    let note : Json := .array [.number none, .text none]
    let ms := [("note", note), ("allowedSchemas", Json.ofStrings ["😀", "b"]), ("blockedSchemas", .null),
      ("requiredPrefix", Json.ofString "app_")]
    let text := "\x7b \x22note\x22 : [-1.5e3,\x22\\ud800\x22],\n" ++
      "\x22\\u0061llowedSchemas\x22:[\x22\\ud83d\\ude00\x22, \x22b\x22]," ++
      "\x22blockedSchemas\x22:null,\x22requiredPrefix\x22:\x22app_\x22\x7d"
    let twice : List (Option String × Json) := [(some "allowedSchemas", .null), (some "allowedSchemas", .null)]
    let repeated := "\x7b\x22allowedSchemas\x22:null,\x22\\u0061llowedSchemas\x22:null\x7d"
    let reason := "duplicate field"
    (f.HeldBy ms ∧ Json.SpellsAlone (.record ms) text.toList ∧ ofText (fun _ => reason) text = .ok f) ∧
      (2 ≤ twice.countP (·.1 = some "allowedSchemas") ∧ Json.SpellsAlone (.object twice) repeated.toList ∧
        ofText (fun _ => reason) repeated = .error (.invalidFile reason)) := by
  intro f note ms text twice repeated reason
  have hf : f.HeldBy ms := ⟨.value "app_", .value ["😀", "b"], .null, .absent⟩
  have nothing : Json.IsSpaces [] := Json.isSpaces_nil
  have blank : Json.IsSpaces [' '] := by simp [Json.IsSpaces, Json.isSpace]
  have line : Json.IsSpaces ['\n'] := by simp [Json.IsSpaces, Json.isSpace]
  have plain (s : String) := Json.spellsText_stringText (some s)
  have hname : Json.SpellsText (some "allowedSchemas") "\x22\\u0061llowedSchemas\x22".toList := by
    have hunit : Json.IsUnit ['0', '0', '6', '1'] 'a'.toNat :=
      .digits (w := 0) (x := 0) (y := 6) (z := 1) (.inl rfl) (.inl rfl) (.inl rfl) (.inl rfl)
    exact .text (.unit hunit (Json.spellsGlyphs_escapes "llowedSchemas".toList))
      (.unit (by decide) (Json.stands_glyphs "llowedSchemas".toList))
  have hpair : Json.SpellsText (some "😀") "\x22\\ud83d\\ude00\x22".toList := by
    have hhigh : Json.IsUnit ['d', '8', '3', 'd'] 0xd83d :=
      .digits (w := 13) (x := 8) (y := 3) (z := 13) (.inl rfl) (.inl rfl) (.inl rfl) (.inl rfl)
    have hlow : Json.IsUnit ['d', 'e', '0', '0'] 0xde00 :=
      .digits (w := 13) (x := 14) (y := 0) (z := 0) (.inl rfl) (.inl rfl) (.inl rfl) (.inl rfl)
    exact .text (.unit hhigh (.unit hlow .nil)) (.pair (c := '😀') (by decide) .nil)
  have hnote : Json.Spells note "[-1.5e3,\x22\\ud800\x22]".toList := by
    have hone : Json.IsWhole ['1'] := ⟨by simp [Json.IsDigits], by simp⟩
    have hfraction : Json.IsFraction ['.', '5'] := .digits (by simp [Json.IsDigits])
    have hexponent : Json.IsExponent ['e', '3'] :=
      @Json.IsExponent.digits 'e' [] ['3'] (.inl rfl) (.inl rfl) (by simp [Json.IsDigits])
    exact .items (.cons nothing (.number (.negative hone hfraction hexponent)) nothing
      (.last nothing (.text (Json.spellsText_stringText none)) nothing))
  have hschemas := Json.SpellsItems.cons nothing (.text hpair) nothing (.last blank (.text (plain "b")) nothing)
  have hlast := Json.SpellsMembers.cons nothing (plain "blockedSchemas") nothing nothing .null nothing
    (.last nothing (plain "requiredPrefix") nothing nothing (.text (plain "app_")) nothing)
  have hmembers := Json.SpellsMembers.cons blank (plain "note") blank blank hnote nothing
    (.cons line hname nothing nothing (.items hschemas) nothing hlast)
  have htext : Json.SpellsAlone (.record ms) text.toList := by
    have hall := Json.SpellsAlone.blanks nothing (.members hmembers) nothing
    convert hall using 1
    · rfl
    · decide +kernel
  have hrepeated : Json.SpellsAlone (.object twice) repeated.toList := by
    have hall := Json.SpellsAlone.blanks nothing (.members (.cons nothing (plain "allowedSchemas") nothing nothing .null
      nothing (.last nothing hname nothing nothing .null nothing))) nothing
    convert hall using 1
    decide +kernel
  obtain ⟨hread, hrefused⟩ := ofText_spelled fun _ => reason
  exact ⟨⟨hf, htext, hread f ms text hf htext⟩, by decide, hrepeated,
    hrefused twice "allowedSchemas" repeated (by decide) (by decide) hrepeated⟩

end Settings

end MigrationLint
