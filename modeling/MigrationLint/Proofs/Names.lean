import MigrationLint.Policy.Name

/-!
# Approved names

`checkName` has no problem with a name exactly when the policy approves it (`checkName_eq_nil_iff`): a
last part with the required prefix, behind at most one dot, and before the dot nothing or an allowed schema.
Every other name has the issues that say what is wrong with it, and no others (`issues_checkName`).
-/

namespace MigrationLint

open Text

/-! ## Pieces -/

namespace Text

theorem pieces_of_none {cut : Char → Bool} {s : List Char} (h : ∀ c ∈ s, cut c = false) : pieces cut s = [s] := by
  induction s with
  | nil => rfl
  | cons c s ih =>
    rw [pieces, h c (by simp), ih fun c hc => h c (by simp [hc])]
    rfl

theorem pieces_of_not_mem {d : Char} {s : List Char} (h : d ∉ s) : pieces (· == d) s = [s] := by
  refine pieces_of_none fun c hc => ?_
  rw [beq_eq_false_iff_ne]
  intro e
  subst e
  exact h hc

theorem pieces_ne_nil (cut : Char → Bool) (s : List Char) : pieces cut s ≠ [] := by
  induction s with
  | nil => simp [pieces]
  | cons c s ih =>
    rw [pieces]
    split
    · exact List.cons_ne_nil _ _
    · simpa using ih

theorem pieces_append {cut : Char → Bool} {c : Char} (hc : cut c = true) (s t : List Char) :
    pieces cut (s ++ c :: t) = pieces cut s ++ pieces cut t := by
  induction s with
  | nil => simp [pieces, hc]
  | cons d s ih =>
    simp only [List.cons_append, pieces, ih]
    split
    · rfl
    · obtain ⟨w, ws, hw⟩ := List.exists_cons_of_ne_nil (pieces_ne_nil cut s)
      simp [hw]

end Text

/-! ## Parts of a name -/

theorem filled?_toList {s : String} (h : s ≠ "") : filled? s.toList = some s := by
  have : s.toList ≠ [] := by simpa using h
  simp [filled?, this]

namespace QualifiedName

theorem parse?_plain {name : String} (h : '.' ∉ name.toList) :
    parse? name = some ⟨none, filled? name.toList⟩ := by
  rw [parse?, pieces_of_not_mem h]

theorem parse?_dotted {schema name : String} (hs : '.' ∉ schema.toList) (hn : '.' ∉ name.toList) :
    parse? (schema ++ "." ++ name) = some ⟨filled? schema.toList, filled? name.toList⟩ := by
  have hp : pieces (· == '.') (schema ++ "." ++ name).toList = [schema.toList, name.toList] := by
    have h : (schema ++ "." ++ name).toList = schema.toList ++ '.' :: name.toList := by simp
    rw [h, pieces_append rfl, pieces_of_not_mem hs, pieces_of_not_mem hn]
    rfl
  rw [parse?, hp]

theorem parse?_two_dots (a b c : String) : parse? (a ++ "." ++ b ++ "." ++ c) = none := by
  have h : (a ++ "." ++ b ++ "." ++ c).toList = a.toList ++ '.' :: (b.toList ++ '.' :: c.toList) := by simp
  rw [parse?, h, pieces_append rfl, pieces_append rfl]
  obtain ⟨u, us, hu⟩ := List.exists_cons_of_ne_nil (pieces_ne_nil (· == '.') a.toList)
  obtain ⟨v, vs, hv⟩ := List.exists_cons_of_ne_nil (pieces_ne_nil (· == '.') b.toList)
  obtain ⟨w, ws, hw⟩ := List.exists_cons_of_ne_nil (pieces_ne_nil (· == '.') c.toList)
  rw [hu, hv, hw]
  cases us <;> cases vs <;> simp

theorem dots (raw : String) :
    '.' ∉ raw.toList ∨
      (∃ schema name : String, '.' ∉ schema.toList ∧ '.' ∉ name.toList ∧ raw = schema ++ "." ++ name) ∨
      ∃ a b c : String, raw = a ++ "." ++ b ++ "." ++ c := by
  by_cases h : '.' ∈ raw.toList
  · obtain ⟨a, t, ht, ha⟩ := List.eq_append_cons_of_mem h
    by_cases hb : '.' ∈ t
    · obtain ⟨b, c, hc, _⟩ := List.eq_append_cons_of_mem hb
      refine .inr (.inr ⟨.ofList a, .ofList b, .ofList c, ?_⟩)
      rw [← String.toList_inj]
      simp [ht, hc]
    · refine .inr (.inl ⟨.ofList a, .ofList t, by simpa using ha, by simpa using hb, ?_⟩)
      rw [← String.toList_inj]
      simp [ht]
  · exact .inl h

end QualifiedName

/-! ## Checks of a name -/

namespace Policy

variable (p : Policy) (context : String)

theorem checkSchema_eq_none_iff {schema : String} :
    p.checkSchema (some schema) = none ↔ schema ∈ p.allowedSchemas := by
  unfold checkSchema allowsSchema
  by_cases h : schema ∈ p.allowedSchemas
  · simp [h]
  · simp only [List.contains_iff_mem, h, iff_false, ite_false]
    split <;> simp

theorem checkPrefix_eq_none_iff {name : String} :
    p.checkPrefix context (some name) = none ↔ p.requiredPrefix.toList <+: name.toList := by
  simp [checkPrefix, hasPrefix]

theorem checkName_plain {name : String} (h : '.' ∉ name.toList) (hne : name ≠ "") :
    p.checkName context name = (p.checkPrefix context (some name)).toList := by
  rw [checkName, QualifiedName.parse?_plain h, filled?_toList hne]
  rfl

theorem checkName_dotted {schema name : String} (hs : '.' ∉ schema.toList) (hn : '.' ∉ name.toList)
    (hne : name ≠ "") :
    p.checkName context (schema ++ "." ++ name) =
      (p.checkSchema (filled? schema.toList)).toList ++ (p.checkPrefix context (some name)).toList := by
  rw [checkName, QualifiedName.parse?_dotted hs hn, filled?_toList hne]

theorem checkName_unreadable {raw : String} (h : (QualifiedName.parse? raw).bind QualifiedName.name = none) :
    p.checkName context raw = [.unrecognizedName context raw] := by
  rw [checkName]
  split
  · rename_i hp
    simp [hp] at h
  · rfl

/-- The names that a policy approves. -/
def Approves (p : Policy) (raw : String) : Prop :=
  ∃ name : String, name ≠ "" ∧ '.' ∉ name.toList ∧ p.requiredPrefix.toList <+: name.toList ∧
    (raw = name ∨ ∃ schema : String, '.' ∉ schema.toList ∧ raw = schema ++ "." ++ name ∧
      (schema = "" ∨ schema ∈ p.allowedSchemas))

theorem checkSchema_filled_eq_none_iff {schema : String} :
    p.checkSchema (filled? schema.toList) = none ↔ schema = "" ∨ schema ∈ p.allowedSchemas := by
  by_cases h : schema = ""
  · simp [h, filled?, checkSchema]
  · rw [filled?_toList h, checkSchema_eq_none_iff]
    simp [h]

theorem checkName_eq_nil_iff {raw : String} : p.checkName context raw = [] ↔ p.Approves raw := by
  constructor
  · intro h
    have filled : ∀ name : String, (QualifiedName.parse? raw).bind QualifiedName.name = filled? name.toList →
        name ≠ "" := by
      intro name hp e
      subst e
      rw [p.checkName_unreadable context hp] at h
      cases h
    rcases QualifiedName.dots raw with hr | ⟨schema, name, hs, hn, rfl⟩ | ⟨a, b, c, rfl⟩
    · have hne := filled raw (by rw [QualifiedName.parse?_plain hr]; rfl)
      rw [p.checkName_plain context hr hne, Option.toList_eq_nil_iff, checkPrefix_eq_none_iff] at h
      exact ⟨raw, hne, hr, h, .inl rfl⟩
    · have hne := filled name (by rw [QualifiedName.parse?_dotted hs hn]; rfl)
      rw [p.checkName_dotted context hs hn hne, List.append_eq_nil_iff, Option.toList_eq_nil_iff,
        Option.toList_eq_nil_iff, checkSchema_filled_eq_none_iff, checkPrefix_eq_none_iff] at h
      exact ⟨name, hne, hn, h.2, .inr ⟨schema, hs, rfl, h.1⟩⟩
    · rw [p.checkName_unreadable context (by rw [QualifiedName.parse?_two_dots]; rfl)] at h
      cases h
  · intro hx
    obtain ⟨name, hne, hn, hp, rfl | ⟨schema, hs, rfl, hsa⟩⟩ := hx
    · rw [p.checkName_plain context hn hne, Option.toList_eq_nil_iff, checkPrefix_eq_none_iff]
      exact hp
    · rw [p.checkName_dotted context hs hn hne, List.append_eq_nil_iff, Option.toList_eq_nil_iff,
        Option.toList_eq_nil_iff, checkSchema_filled_eq_none_iff, checkPrefix_eq_none_iff]
      exact ⟨hsa, hp⟩

theorem checkExtension_eq_none_iff {extension : String} :
    p.checkExtension extension = none ↔ extension ∈ p.allowedExtensions := by
  unfold checkExtension
  cases h : p.allowedExtensions with
  | nil => simp
  | cons x xs => simp [Decidable.or_iff_not_imp_left]

end Policy

/-! ## The schema of a problem -/

/-- The schema that a problem is about. -/
def Problem.schema? : Problem → Option String
  | blockedSchema schema => some schema
  | schemaNotAllowlisted schema => some schema
  | _ => none

theorem Problem.isSchema_eq (x : Problem) : x.isSchema = x.schema?.isSome := by cases x <;> rfl

namespace Policy

section
variable {p : Policy} {context : String} {x : Problem}

theorem schema?_of_checkSchema {schema : Option String}
    (h : p.checkSchema schema = some x) : x.schema? = schema := by
  unfold checkSchema at h
  split at h
  · cases h
  · split at h
    · cases h
    · split at h <;>
        · cases h
          rfl

theorem schema?_of_checkPrefix {name : Option String}
    (h : p.checkPrefix context name = some x) : x.schema? = none := by
  unfold checkPrefix at h
  split at h
  · cases h
  · cases h
    rfl

theorem schema?_of_checkExtension {extension : String}
    (h : p.checkExtension extension = some x) : x.schema? = none := by
  unfold checkExtension at h
  split at h
  · cases h
    rfl
  · split at h
    · cases h
    · cases h
      rfl

theorem isSchema_of_checkSchema {schema : Option String} (h : p.checkSchema schema = some x) : x.isSchema = true := by
  rw [x.isSchema_eq, schema?_of_checkSchema h]
  cases schema with
  | none => cases h
  | some schema => rfl

theorem isSchema_of_checkPrefix {name : Option String} (h : p.checkPrefix context name = some x) :
    x.isSchema = false := by
  rw [x.isSchema_eq, schema?_of_checkPrefix h]
  rfl

end

end Policy

/-! ## The issues of a name -/

/-- A name that cannot be read: there are two dots in it, or nothing stands behind the last one. -/
def IsUnreadable (raw : String) : Prop := 2 ≤ raw.toList.count '.' ∨ raw = "" ∨ ∃ front, raw = front ++ "."

/-- What stands behind the dot of a name, and the schema before it, which is empty if there is none. -/
structure HasParts (raw schema name : String) : Prop where
  name_ne : name ≠ ""
  no_dot_name : '.' ∉ name.toList
  no_dot_schema : '.' ∉ schema.toList
  raw_eq : raw = name ∧ schema = "" ∨ raw = schema ++ "." ++ name

theorem exists_parts {raw : String} (h : ¬ IsUnreadable raw) : ∃ schema name, HasParts raw schema name := by
  rw [IsUnreadable, not_or, not_or] at h
  obtain ⟨hdots, hne, hlast⟩ := h
  rcases QualifiedName.dots raw with hr | ⟨schema, name, hs, hn, rfl⟩ | ⟨a, b, c, rfl⟩
  · exact ⟨"", raw, hne, hr, by simp, .inl ⟨rfl, rfl⟩⟩
  · refine ⟨schema, name, ?_, hn, hs, .inr rfl⟩
    rintro rfl
    exact hlast ⟨schema, String.append_empty⟩
  · refine absurd ?_ hdots
    simp only [String.toList_append, List.count_append]
    have hdot : ".".toList.count '.' = 1 := rfl
    omega

theorem parse?_unreadable {raw : String} (h : IsUnreadable raw) :
    (QualifiedName.parse? raw).bind QualifiedName.name = none := by
  rcases QualifiedName.dots raw with hr | ⟨schema, name, hs, hn, rfl⟩ | ⟨a, b, c, rfl⟩
  · obtain rfl : raw = "" := by
      rcases h with h | rfl | ⟨front, rfl⟩
      · rw [List.count_eq_zero.mpr hr] at h
        omega
      · rfl
      · simp at hr
    rfl
  · obtain rfl : name = "" := by
      rcases h with h | h | ⟨front, h⟩
      · simp only [String.toList_append, List.count_append, List.count_eq_zero.mpr hs, List.count_eq_zero.mpr hn] at h
        exact absurd h (by decide)
      · simp at h
      · rcases List.eq_nil_or_concat name.toList with hnil | ⟨s, c, hc⟩
        · simpa using hnil
        · have hlist : schema.toList ++ '.' :: s ++ [c] = front.toList ++ ['.'] := by
            simpa [hc] using congrArg String.toList h
          obtain rfl : c = '.' := List.singleton_inj.mp (List.append_inj' hlist rfl).2
          exact absurd (by simp [hc]) hn
    rw [QualifiedName.parse?_dotted hs hn]
    rfl
  · rw [QualifiedName.parse?_two_dots]
    rfl

namespace Policy

variable (p : Policy) (context : String)

/-- The issue of a schema that is not allowed. -/
def schemaIssues (schema : String) : List Issue :=
  if schema = "" ∨ schema ∈ p.allowedSchemas then []
  else if schema ∈ p.blockedSchemas then [⟨.blockedSchema, "blocked schema reference: " ++ schema⟩]
  else [⟨.schemaNotAllowlisted, "schema not allowlisted: " ++ schema⟩]

/-- The issue of a name without the required prefix. -/
def prefixIssues (name : String) : List Issue :=
  if p.requiredPrefix.toList <+: name.toList then []
  else [⟨.missingPrefix, "missing required prefix for " ++ context ++ ": " ++ name⟩]

theorem issues_checkSchema (schema : String) :
    (p.checkSchema (filled? schema.toList)).toList.map Problem.issue = p.schemaIssues schema := by
  by_cases hne : schema = ""
  · simp [schemaIssues, hne, filled?, checkSchema]
  · rw [filled?_toList hne]
    simp only [checkSchema, schemaIssues, allowsSchema, blocksSchema, List.contains_iff_mem, hne, false_or]
    split
    · rfl
    · split <;> rfl

theorem issues_checkPrefix (name : String) :
    (p.checkPrefix context (some name)).toList.map Problem.issue = p.prefixIssues context name := by
  simp only [checkPrefix, prefixIssues, Option.any_some, hasPrefix, List.isPrefixOf_iff_prefix]
  split
  · rfl
  · rfl

theorem issues_of_parts {raw schema name : String} (h : HasParts raw schema name) :
    (p.checkName context raw).map Problem.issue = p.schemaIssues schema ++ p.prefixIssues context name := by
  obtain ⟨hne, hn, hs, ⟨rfl, rfl⟩ | rfl⟩ := h
  · have hschema : p.schemaIssues "" = [] := if_pos (.inl rfl)
    rw [p.checkName_plain context hn hne, issues_checkPrefix, hschema, List.nil_append]
  · rw [p.checkName_dotted context hs hn hne, List.map_append, issues_checkSchema, issues_checkPrefix]

theorem unrecognized_not_mem (raw schema name : String) :
    (⟨.unrecognizedName, "unrecognized " ++ context ++ " name: " ++ raw⟩ : Issue) ∉
      p.schemaIssues schema ++ p.prefixIssues context name := by
  rw [List.mem_append, not_or]
  constructor
  · unfold schemaIssues
    split
    · simp
    · split <;> simp
  · unfold prefixIssues
    split <;> simp

/-- **The issues of a name.** A name that cannot be read has one issue, which says so. Any other has the issue of its
schema, unless there is none or it is allowed, and then that of its last part, unless it has the prefix; so there
is none exactly where the policy approves the name. -/
theorem issues_checkName (raw : String) :
    ((p.checkName context raw).map Problem.issue =
        [⟨.unrecognizedName, "unrecognized " ++ context ++ " name: " ++ raw⟩] ↔ IsUnreadable raw) ∧
      (IsUnreadable raw ∨ ∃ schema name, HasParts raw schema name ∧
        (p.checkName context raw).map Problem.issue = p.schemaIssues schema ++ p.prefixIssues context name) ∧
      ((p.checkName context raw).map Problem.issue = [] ↔ p.Approves raw) := by
  refine ⟨?_, ?_, ?_⟩
  · by_cases h : IsUnreadable raw
    · rw [p.checkName_unreadable context (parse?_unreadable h)]
      exact iff_of_true rfl h
    · obtain ⟨schema, name, hparts⟩ := exists_parts h
      refine iff_of_false (fun he => p.unrecognized_not_mem context raw schema name ?_) h
      rw [← p.issues_of_parts context hparts, he]
      exact List.mem_singleton_self _
  · by_cases h : IsUnreadable raw
    · exact .inl h
    · obtain ⟨schema, name, hparts⟩ := exists_parts h
      exact .inr ⟨schema, name, hparts, p.issues_of_parts context hparts⟩
  · rw [List.map_eq_nil_iff, checkName_eq_nil_iff]

end Policy

end MigrationLint
