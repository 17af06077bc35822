import MigrationLint.Proofs.Symbols

/-!
# Lists of names to drop

A drop is recognized by its first name. The names behind a comma are read by the schema scan alone, so a list is
accepted as soon as its first name is and the schemas of the others are allowed (`checkStatement_drop_list`).
-/

namespace MigrationLint.Sql

open Text

/-- Names with a comma and any blanks between one and the next. -/
inductive Listed : List Word → List Char → Prop
  | last {n : Word} : IsName isNameChar n → Listed [n] n
  | comma {n : Word} {ns : List Word} {g h s : List Char} : IsName isNameChar n → (∀ b ∈ g, isBlank b = true) →
      (∀ b ∈ h, isBlank b = true) → Listed ns s → Listed (n :: ns) (n ++ (g ++ ',' :: (h ++ s)))

/-- The kinds of objects that can be dropped in lists, each with the statement that is found. -/
def dropForms : List (String × (String → Statement)) :=
  [("table", .table), ("view", .view), ("sequence", .sequence), ("type", .type), ("index", .dropIndex)]

def dropText (kind : String) (s : List Char) : List Char := "drop ".toList ++ (kind.toList ++ ' ' :: s)

theorem isSymbol_comma : IsSymbol ',' := by decide

/-! ## The names of a list -/

theorem IsName.halts_blank {n : Word} (hn : IsName isNameChar n) (t : List Char) : Halts isBlank (n ++ t) :=
  halts_append hn.ne_nil (fun c hc => isBlank_of_isNameChar (hn.chars c (List.mem_of_mem_head? hc))) t

theorem IsName.foreignKeys {n : Word} (hn : IsName isNameChar n) : foreignKeys n = [] := by
  rw [foreignKeys_of_words (words_single fun c hc => isBlank_of_isNameChar (hn.chars c hc))]
  rfl

namespace Listed

variable {ns : List Word} {s : List Char} (h : Listed ns s)
include h

theorem halts : Halts isBlank s := by
  cases h with
  | last hn => simpa using hn.halts_blank []
  | comma hn _ _ _ => exact hn.halts_blank _

theorem schemaRefs_eq : schemaRefs s = ns.flatMap schemaRefs := by
  induction h with
  | last hn => simp
  | @comma n ns g h s hn hg hh _ ih =>
    rw [← List.append_assoc, schemaRefs_symbol isSymbol_comma, schemaRefs_append_blanks hg, schemaRefs_blanks_append hh,
      ih, List.flatMap_cons]

theorem foreignKeys_eq_nil : foreignKeys s = [] := by
  induction h with
  | last hn => exact hn.foreignKeys
  | @comma n ns g h s hn hg hh hs ih =>
    rw [← List.append_assoc, foreignKeys_symbol isSymbol_comma, foreignKeys_append_blanks hg,
      foreignKeys_blanks_append hh hs.halts, hn.foreignKeys, ih]
    rfl

end Listed

/-! ## The statement -/

theorem exists_drop_head :
    ∀ x ∈ dropForms, ∃ head, ⟨head, oneName x.2⟩ ∈ forms ∧ ["drop".toList, x.1.toList] ∈ spellings head := by
  simp only [dropForms, List.forall_mem_cons]
  refine ⟨⟨tableHead, ?_, by decide⟩, ⟨viewHead, ?_, by decide⟩, ⟨sequenceHead, ?_, by decide⟩,
    ⟨typeHead, ?_, by decide⟩, ⟨dropIndexHead, ?_, by decide⟩, by simp⟩
  all_goals simp [forms]

theorem isKeyword_dropForms :
    ∀ x ∈ dropForms, IsKeyword x.1.toList ∧ endsWithWord "references".toList [] x.1.toList = false := by decide

theorem check_dropForms (p : Policy) (n : String) : ∀ x ∈ dropForms, (x.2 n).check p = p.checkName x.1 n := by
  simp [dropForms, Statement.check, Statement.names]

section
variable {kind : String} {make : String → Statement} (hkind : (kind, make) ∈ dropForms)
include hkind

theorem words_drop {s : List Char} (hs : Halts isBlank s) :
    words (dropText kind s) = "drop".toList :: kind.toList :: words s := by
  have hk := (isKeyword_dropForms _ hkind).1
  have hkind : Halts isBlank (kind.toList ++ ' ' :: s) :=
    halts_append hk.1 (fun c hc => hk.not_blank c (List.mem_of_mem_head? hc)) _
  have hdrop : IsKeyword "drop".toList := by decide
  exact (words_keyword hdrop hkind).trans (congrArg _ (words_keyword hk hs))

theorem detect_drop {n : Word} (hn : IsName isNameChar n) {t : List Char} (ht : Halts isNameChar t) :
    detect (dropText kind (n ++ t)) = some (make (.ofList n)) := by
  obtain ⟨head, hf, hus⟩ := exists_drop_head _ hkind
  obtain ⟨ws, hw⟩ := words_head t
  have hwords : words (n ++ t) = (n ++ t.takeWhile fun c => !isBlank c) :: ws := by
    rw [words_word fun c hc => isBlank_of_isNameChar (hn.chars c hc), hw, List.modifyHead_cons]
  have hfound := detectWords_oneName hf hus hn (ht.of_words hw) ws
  unfold detectWords at hfound
  unfold detect
  rw [words_drop hkind (hn.halts_blank t), hwords]
  exact hfound

theorem foreignKeys_drop {s : List Char} (hs : Halts isBlank s) : foreignKeys (dropText kind s) = foreignKeys s := by
  rw [foreignKeys_of_words (words_drop hkind hs), targets_cons (by decide),
    targets_cons (isKeyword_dropForms _ hkind).2, foreignKeys_of_words rfl]

/-- A list is accepted for its first name and for the schemas of all of them. -/
theorem checkStatement_drop_iff {n : Word} {ns : List Word} {s : List Char} (h : Listed (n :: ns) s) (p : Policy) :
    checkStatement p (dropText kind s) = [] ↔
      ((∀ schema ∈ schemaRefs (dropText kind n), schema ∈ p.allowedSchemas) ∧ p.checkName kind (.ofList n) = []) ∧
        ∀ m ∈ ns, ∀ schema ∈ schemaRefs m, schema ∈ p.allowedSchemas := by
  have hkeys : foreignKeys (dropText kind s) = [] := (foreignKeys_drop hkind h.halts).trans h.foreignKeys_eq_nil
  obtain ⟨hdetect, hrefs⟩ : detect (dropText kind s) = some (make (.ofList n)) ∧
      schemaRefs (dropText kind s) = schemaRefs (dropText kind n) ++ ns.flatMap schemaRefs := by
    cases h with
    | last hn =>
      have := detect_drop hkind hn (halts_nil _)
      rw [List.append_nil] at this
      exact ⟨this, (List.append_nil _).symm⟩
    | @comma _ _ g h s hn hg hh hs =>
      constructor
      · apply detect_drop hkind hn
        exact halts_blanks isBlank_of_isNameChar hg (halts_cons isSymbol_comma.not_name _)
      · have htext : dropText kind (n ++ (g ++ ',' :: (h ++ s))) = (dropText kind n ++ g) ++ ',' :: (h ++ s) := by
          simp [dropText]
        rw [htext, schemaRefs_symbol isSymbol_comma, schemaRefs_append_blanks hg, schemaRefs_blanks_append hh,
          hs.schemaRefs_eq]
  rw [checkStatement_detected_iff hdetect, hrefs, hkeys, check_dropForms p _ _ hkind]
  simp only [List.forall_mem_append, List.mem_flatMap, List.not_mem_nil, false_imp_iff, implies_true, and_true]
  constructor
  · rintro ⟨⟨hfirst, hrest⟩, hcheck⟩
    exact ⟨⟨hfirst, hcheck⟩, fun m hm schema hs => hrest schema ⟨m, hm, hs⟩⟩
  · rintro ⟨⟨hfirst, hcheck⟩, hrest⟩
    exact ⟨⟨hfirst, fun schema ⟨m, hm, hs⟩ => hrest m hm schema hs⟩, hcheck⟩

/-- **Drop lists.** A list of names is accepted exactly if the drop of its first name alone is and every schema
that the other names refer to is allowed. So the first name is checked as a name, and the others are not. -/
theorem checkStatement_drop_list {n : Word} {ns : List Word} {s : List Char} (h : Listed (n :: ns) s) (p : Policy) :
    (checkStatement p (dropText kind s) = [] ↔
      checkStatement p (dropText kind n) = [] ∧ ∀ m ∈ ns, ∀ schema ∈ schemaRefs m, schema ∈ p.allowedSchemas) ∧
    (checkStatement p (dropText kind n) = [] ↔
      p.checkName kind (.ofList n) = [] ∧ ∀ schema ∈ schemaRefs (dropText kind n), schema ∈ p.allowedSchemas) := by
  have hn : IsName isNameChar n := by
    cases h with
    | last hn => exact hn
    | comma hn _ _ _ => exact hn
  have hsingle := checkStatement_drop_iff hkind (.last hn) p
  rw [checkStatement_drop_iff hkind h, hsingle]
  simp [and_comm]

end

/-- The second name has no prefix and the third is none, but their schemas are allowed. -/
theorem checkStatement_drop_list_three :
    let p : Policy := ⟨"cb_", ["public"], ["auth"], []⟩
    let s := "cb_a ,\n public.widgets,..".toList
    Listed ["cb_a".toList, "public.widgets".toList, "..".toList] s ∧ checkStatement p (dropText "view" s) = [] := by
  intro p s
  have h : Listed ["cb_a".toList, "public.widgets".toList, "..".toList] s :=
    .comma (g := [' ']) (h := ['\n', ' ']) ⟨by decide, forall_of_all (by decide), by decide⟩ (forall_of_all (by decide))
      (forall_of_all (by decide))
      (.comma (g := []) (h := []) ⟨by decide, forall_of_all (by decide), by decide⟩ (by simp) (by simp)
        (.last ⟨by decide, forall_of_all (by decide), by decide⟩))
  have hview : ("view", Statement.view) ∈ dropForms := by simp [dropForms]
  exact ⟨h, (checkStatement_drop_list hview h p).1.mpr ⟨by decide, by decide⟩⟩

/-- Only the first table has the prefix. -/
theorem checkStatement_drop_unprefixed :
    let p : Policy := ⟨"cb_", ["public"], ["auth"], []⟩
    checkStatement p (dropText "table" "cb_a, widgets".toList) = [] ∧
      p.checkName "table" "widgets" = [.missingPrefix "table" (some "widgets")] := by
  decide

end MigrationLint.Sql
