import MigrationLint.Proofs.Spellings

/-!
# Names behind optional phrases

An optional phrase in front of a name is left out where a name follows it, and the name ends at the first
character of another kind (`readName`). That is what is found of a table or an extension that is created
(`detectWords_create_table`, `detectWords_create_extension`).
-/

namespace MigrationLint.Sql

open Text

/-! ## The name that is read -/

/-- The run at the front of a word, if there is one. -/
def run? (isChar : Char → Bool) (w : Word) : Option Word :=
  if (w.takeWhile isChar).isEmpty then none else some (w.takeWhile isChar)

/-- The name at the front of the words, optional phrases before it left out where a name follows them. -/
def readName (phrases : List Part) (isChar : Char → Bool) (ws : List Word) : Option Word :=
  (readings phrases ws).findSome? fun r => r.head?.bind (run? isChar)

def tablePhrases : List Part := [.maybe [ifNotExists, ifExists], only]

def extensionPhrases : List Part := [.maybe [ifNotExists]]

section
variable {isChar : Char → Bool}

theorem run?_eq_some_iff {w n : Word} : run? isChar w = some n ↔ n ≠ [] ∧ w.takeWhile isChar = n := by
  unfold run?
  by_cases h : w.takeWhile isChar = []
  · rw [h, List.isEmpty_nil, if_pos rfl]
    constructor
    · intro e
      cases e
    · intro hx
      exact absurd hx.2.symm hx.1
  · rw [if_neg (by simpa using h), Option.some.injEq]
    constructor
    · intro e
      exact ⟨e ▸ h, e⟩
    · exact And.right

theorem readName_spec {phrases : List Part} {ws : List Word} {n : Word} (h : readName phrases isChar ws = some n) :
    ∃ w ∈ ws, n ≠ [] ∧ w.takeWhile isChar = n := by
  obtain ⟨r, hr, hn⟩ := List.exists_of_findSome?_eq_some h
  obtain ⟨us, -, rfl⟩ := mem_readings.mp hr
  obtain ⟨w, hw, hn⟩ := Option.bind_eq_some_iff.mp hn
  exact ⟨w, List.mem_append_right _ (List.mem_of_mem_head? hw), run?_eq_some_iff.mp hn⟩

theorem after?_append {ph : List String} {v : Word} (hv : ∀ k ∈ ph, v ≠ k.toList) (ws Z : List Word) :
    after? ph (ws ++ v :: Z) = (after? ph ws).map (· ++ v :: Z) := by
  fun_induction after? ph ws with
  | case1 ws => rfl
  | case2 k ks ws ih =>
    rw [List.cons_append, after?, if_pos rfl]
    exact ih fun k hk => hv k (List.mem_cons_of_mem _ hk)
  | case3 k ks w ws h =>
    rw [List.cons_append, after?, if_neg h]
    rfl
  | case4 k ks =>
    rw [List.nil_append, after?, if_neg (hv k List.mem_cons_self)]
    rfl

theorem readings_append {ps : List Part} {v : Word} (hv : ∀ k ∈ ps.flatMap Part.texts, v ≠ k.toList)
    (ws Z : List Word) : readings ps (ws ++ v :: Z) = (readings ps ws).map (· ++ v :: Z) := by
  induction ps generalizing ws with
  | nil => rfl
  | cons part ps ih =>
    rw [List.flatMap_cons, List.forall_mem_append] at hv
    have ih := ih hv.2
    cases part with
    | keyword choices =>
      cases ws with
      | nil =>
        rw [List.nil_append, readings, if_neg]
        · rfl
        · intro hany
          obtain ⟨k, hk, he⟩ := List.any_eq_true.mp hany
          exact hv.1 k hk (beq_iff_eq.mp he).symm
      | cons w ws =>
        rw [List.cons_append, readings, readings]
        split
        · exact ih ws
        · rfl
    | «maybe» phrases =>
      have hphrase : ∀ ph ∈ phrases, after? ph (ws ++ v :: Z) = (after? ph ws).map (· ++ v :: Z) := by
        intro ph hph
        exact after?_append (fun k hk => hv.1 k (List.mem_flatten.mpr ⟨ph, hph, hk⟩)) ws Z
      have hmap :
          phrases.filterMap (after? · (ws ++ v :: Z)) = (phrases.filterMap (after? · ws)).map (· ++ v :: Z) := by
        rw [List.map_filterMap]
        exact List.filterMap_congr hphrase
      rw [readings, readings, hmap, ← List.map_singleton (f := (· ++ v :: Z)), ← List.map_append, List.flatMap_map,
        List.map_flatMap]
      congr 1
      funext r
      exact ih r

/-- Words that start with no keyword and no name add nothing to what is read. -/
theorem readName_append {phrases : List Part} {v : Word} (hv : ∀ k ∈ phrases.flatMap Part.texts, v ≠ k.toList)
    (hrun : run? isChar v = none) (ws Z : List Word) :
    readName phrases isChar (ws ++ v :: Z) = readName phrases isChar ws := by
  unfold readName
  rw [readings_append hv, List.findSome?_map]
  congr 1
  funext r
  cases r with
  | nil => exact hrun
  | cons w r => rfl

/-- A word of its own that is a name is read as it is, whether a phrase starts with it or not. -/
theorem readName_word {phrases : List Part} (hp : [] ∈ spellings phrases) {w : Word} (hn : w ≠ [])
    (hw : ∀ c ∈ w, isChar c = true) : readName phrases isChar [w] = some w := by
  have hrun : run? isChar w = some w := run?_eq_some_iff.mpr ⟨hn, List.takeWhile_eq_self_iff.mpr hw⟩
  have hread : ∃ r ∈ readings phrases [w], r.head?.bind (run? isChar) = some w :=
    ⟨[w], mem_readings.mpr ⟨[], hp, rfl⟩, hrun⟩
  obtain ⟨n, h⟩ : ∃ n, readName phrases isChar [w] = some n := by
    obtain ⟨r, hr, h⟩ := hread
    rw [← Option.isSome_iff_exists]
    exact List.findSome?_isSome_iff.mpr ⟨r, hr, by rw [h]; rfl⟩
  obtain ⟨w', hw', -, hn'⟩ := readName_spec h
  obtain rfl := List.mem_singleton.mp hw'
  rw [h, ← hn', List.takeWhile_eq_self_iff.mpr hw]

/-- Where no phrase can be read, the name is at the front of the words. -/
theorem readName_plain {ws : List Word} (hnot : after? ifNotExists ws = none) (hexists : after? ifExists ws = none)
    (honly : after? ["only"] ws = none) : readName tablePhrases isChar ws = ws.head?.bind (run? isChar) := by
  unfold readName tablePhrases only
  simp only [readings, List.filterMap_cons, List.filterMap_nil, hnot, hexists, honly, List.nil_append,
    List.flatMap_singleton, List.findSome?_cons, List.findSome?_nil]
  cases ws.head?.bind (run? isChar) <;> rfl

/-- A word that no phrase starts with is not left out. -/
theorem readName_head {w : Word} (hif : w ≠ "if".toList) (honly : w ≠ "only".toList) (ws : List Word) :
    readName tablePhrases isChar (w :: ws) = run? isChar w :=
  readName_plain (if_neg hif) (if_neg hif) (if_neg honly)

end

/-! ## The statement that is read -/

theorem name?_eq (w : Word) : name? w = (run? isNameChar w).map .ofList := by
  unfold run?
  rw [apply_ite (Option.map String.ofList)]
  rfl

theorem detectWords_verb_table {v : String} (hv : v ∈ ["create", "alter", "drop"]) (ws : List Word) :
    detectWords (v.toList :: "table".toList :: ws) =
      (readName tablePhrases isNameChar ws).map fun n => .table (.ofList n) := by
  have hforms : forms = ⟨tableHead, oneName .table⟩ :: forms.drop 1 := rfl
  have hverb : v = "create" ∨ v = "alter" ∨ v = "drop" := by simpa using hv
  have after : (forms.drop 1).findSome? (·.read (v.toList :: "table".toList :: ws)) = none := by
    rcases hverb with rfl | rfl | rfl <;> rfl
  have hread : Form.read ⟨tableHead, oneName .table⟩ (v.toList :: "table".toList :: ws) =
      (readings tablePhrases ws).findSome? (oneName .table) := by
    rcases hverb with rfl | rfl | rfl <;> rfl
  have read : Form.read ⟨tableHead, oneName .table⟩ (v.toList :: "table".toList :: ws) =
      (readName tablePhrases isNameChar ws).map fun n => .table (.ofList n) := by
    rw [hread, readName, List.map_findSome?]
    refine findSome?_congr fun r _ => ?_
    cases r with
    | nil => rfl
    | cons w r => rw [oneName, name?_eq, Option.map_map]; rfl
  rw [detectWords, hforms, List.findSome?_cons, after, read]
  cases readName tablePhrases isNameChar ws <;> rfl

theorem detectWords_create_table (ws : List Word) :
    detectWords ("create".toList :: "table".toList :: ws) =
      (readName tablePhrases isNameChar ws).map fun n => .table (.ofList n) :=
  detectWords_verb_table (by simp) ws

theorem detectWords_table {w : Word} (hif : w ≠ "if".toList) (honly : w ≠ "only".toList) (hn : nameRun w ≠ [])
    (ws : List Word) :
    detectWords ("create".toList :: "table".toList :: w :: ws) = some (.table (.ofList (nameRun w))) := by
  have hrun : run? isNameChar w = some (nameRun w) := run?_eq_some_iff.mpr ⟨hn, rfl⟩
  rw [detectWords_create_table, readName_head hif honly, hrun]
  rfl

theorem detectWords_extension (ws : List Word) :
    detectWords ("create".toList :: "extension".toList :: ws) =
      (readings [.maybe [ifNotExists]] ws).findSome? extensionName := by
  have hforms : forms = forms.take 10 ++ [⟨createExtensionHead, extensionName⟩] ++ forms.drop 11 := rfl
  have before : (forms.take 10).findSome? (·.read ("create".toList :: "extension".toList :: ws)) = none := rfl
  have after : (forms.drop 11).findSome? (·.read ("create".toList :: "extension".toList :: ws)) = none := rfl
  have read : Form.read ⟨createExtensionHead, extensionName⟩ ("create".toList :: "extension".toList :: ws) =
      (readings [.maybe [ifNotExists]] ws).findSome? extensionName := rfl
  rw [detectWords, hforms, List.findSome?_append, List.findSome?_append, before, after, Option.none_or,
    Option.or_none, List.findSome?_cons, read]
  cases (readings [.maybe [ifNotExists]] ws).findSome? extensionName <;> rfl

theorem detectWords_createExtension {w : Word} {ws : List Word} (h : after? ifNotExists (w :: ws) = none) :
    detectWords ("create".toList :: "extension".toList :: w :: ws) = extensionName (w :: ws) := by
  rw [detectWords_extension, findSome?_maybe]
  simp [h, readings]

theorem detectWords_create_extension {ws : List Word} (h : ∀ w ∈ ws, '\x22' ∉ w) :
    detectWords ("create".toList :: "extension".toList :: ws) =
      (readName extensionPhrases isExtensionChar ws).map fun n => .createExtension (.ofList n) := by
  rw [detectWords_extension, readName, List.map_findSome?]
  refine findSome?_congr fun r hr => ?_
  obtain ⟨us, -, rfl⟩ := mem_readings.mp hr
  cases r with
  | nil => rfl
  | cons w r =>
    have hq : w.head? ≠ some '\x22' := by
      intro hq
      exact h w (by simp) (List.mem_of_mem_head? hq)
    simp only [extensionName, if_neg hq, Function.comp_apply, List.head?_cons, Option.bind_some, run?]
    split <;> rfl

end MigrationLint.Sql
