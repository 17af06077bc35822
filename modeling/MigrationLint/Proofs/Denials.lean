import MigrationLint.Proofs.Detection
import MigrationLint.Proofs.Order

/-!
# Statements that are denied

DDL that is not recognized, grants, and extensions while none is allowed are denied by one problem of their
own. Schema references and names have problems with other codes, so a statement with such a problem has it
exactly once, whatever else is in the statement (`count_denials`).
-/

namespace MigrationLint

/-- The codes of problems with a schema. -/
def schemaCodes : List Code := [.blockedSchema, .schemaNotAllowlisted]

/-- The codes of problems with a name. -/
def nameCodes : List Code := schemaCodes ++ [.missingPrefix, .unrecognizedName]

theorem Problem.isSchema_iff (x : Problem) : x.isSchema = true ↔ x.code ∈ schemaCodes := by
  cases x <;> simp [Problem.isSchema, Problem.code, schemaCodes]

namespace Policy

variable {p : Policy} {context : String} {x : Problem}

theorem code_of_checkSchema {schema : Option String} (h : p.checkSchema schema = some x) : x.code ∈ nameCodes :=
  List.mem_append_left _ (x.isSchema_iff.mp (isSchema_of_checkSchema h))

theorem code_of_checkPrefix {name : Option String} (h : p.checkPrefix context name = some x) :
    x.code = .missingPrefix := by
  unfold checkPrefix at h
  split at h
  · cases h
  · cases h
    rfl

theorem code_of_checkName {raw : String} (h : x ∈ p.checkName context raw) : x.code ∈ nameCodes := by
  unfold checkName at h
  split at h
  · rcases List.mem_append.mp h with h | h
    · exact code_of_checkSchema (Option.mem_toList.mp h)
    · rw [code_of_checkPrefix (Option.mem_toList.mp h)]
      decide
  · obtain rfl := List.mem_singleton.mp h
    simp [Problem.code, nameCodes]

theorem code_of_checkExtension {extension : String} (h : p.checkExtension extension = some x) :
    x.code = .extensionNotSupported ∨ x.code = .extensionNotAllowed := by
  unfold checkExtension at h
  split at h
  · cases h
    exact .inl rfl
  · split at h
    · cases h
    · cases h
      exact .inr rfl

end Policy

namespace Sql

open Text

/-! ## First words -/

/-- The text has the word at its front, with no word character behind it. -/
def StartsWithWord (k : String) (s : List Char) : Prop := ∃ t, s = k.toList ++ t ∧ Halts isWordChar t

theorem leadWord_words (s : List Char) : leadWord (words s) = s.takeWhile isWordChar := by
  obtain ⟨ws, hw⟩ := words_head s
  rw [hw, leadWord, List.headD_cons, List.takeWhile_takeWhile]
  congr 1
  funext c
  by_cases hc : isWordChar c = true
  · simp [hc, isBlank_of_isWordChar hc]
  · simp [hc]

theorem startsWithWord_iff {k : String} {s : List Char} (hk : IsKeyword k.toList) :
    StartsWithWord k s ↔ .ofList (leadWord (words s)) = k := by
  rw [leadWord_words, ← String.toList_inj, String.toList_ofList]
  constructor
  · rintro ⟨t, rfl, ht⟩
    rw [List.takeWhile_append_of_pos hk.isWordChar, ht.takeWhile_eq_nil, List.append_nil]
  · intro h
    refine ⟨s.dropWhile isWordChar, ?_, head_dropWhile⟩
    rw [← h, List.takeWhile_append_dropWhile]

/-! ## What a tail makes -/

/-- The statements that a tail makes are as wanted. -/
def Makes (P : Statement → Prop) (tail : List Word → Option Statement) : Prop := ∀ ws st, tail ws = some st → P st

section
variable {P : Statement → Prop}

theorem makes_oneName {make : String → Statement} (hm : ∀ n, P (make n)) : Makes P (oneName make) := by
  intro ws st h
  unfold oneName at h
  split at h
  · obtain ⟨n, -, rfl⟩ := Option.map_eq_some_iff.mp h
    exact hm n
  · cases h

theorem makes_nameOnName {between : List Part} {make : String → String → Statement} (hm : ∀ n n', P (make n n')) :
    Makes P (nameOnName between make) := by
  intro ws st h
  unfold nameOnName at h
  split at h
  · split at h
    · obtain ⟨n, -, h⟩ := Option.bind_eq_some_iff.mp h
      obtain ⟨r, -, h⟩ := List.exists_of_findSome?_eq_some h
      exact makes_oneName (hm n) r st h
    · cases h
  · cases h

theorem makes_nameThenOn {make : String → String → Statement} (hm : ∀ n n', P (make n n')) :
    Makes P (nameThenOn make) := by
  intro ws st h
  unfold nameThenOn at h
  split at h
  · dsimp only at h
    split at h
    · cases h
    · split at h
      · obtain rfl := Option.some.inj h
        exact hm _ _
      · split at h
        · obtain ⟨n', -, rfl⟩ := Option.map_eq_some_iff.mp h
          exact hm _ n'
        · cases h
  · cases h

theorem makes_objectName (hm : ∀ k n, P (.commentOnObject k n)) : Makes P objectName := by
  intro ws st h
  unfold objectName at h
  split at h
  · split at h
    · obtain ⟨n, -, rfl⟩ := Option.map_eq_some_iff.mp h
      exact hm _ n
    · cases h
  · cases h

theorem makes_extensionName (hm : ∀ n, P (.createExtension n)) : Makes P extensionName := by
  intro ws st h
  unfold extensionName at h
  split at h
  · rw [Option.ite_none_left_eq_some] at h
    obtain rfl := Option.some.inj h.2
    exact hm _
  · cases h

theorem makes_columnTable (hm : ∀ n, P (.commentOnColumn n)) : Makes P columnTable := by
  intro ws st h
  unfold columnTable at h
  split at h
  · obtain ⟨n, -, rfl⟩ := Option.map_eq_some_iff.mp h
    exact hm _
  · cases h

theorem makes_calledName (hm : ∀ n, P (.commentOnFunction n)) : Makes P calledName := by
  intro ws st h
  unfold calledName at h
  split at h
  · split at h
    · obtain ⟨n, -, rfl⟩ := Option.map_eq_some_iff.mp h
      exact hm n
    · cases h
  · cases h

end

/-- Only the words `grant` and `revoke` make a grant. -/
theorem makes_no_grant : ∀ f ∈ forms, f = ⟨[], grantOrRevoke⟩ ∨ Makes (· ≠ .grantRevoke) f.tail := by
  simp only [forms, List.forall_mem_cons]
  refine ⟨.inr (makes_oneName ?_), .inr (makes_nameOnName ?_), .inr (makes_oneName ?_),
    .inr (makes_nameOnName ?_), .inr (makes_oneName ?_), .inr (makes_oneName ?_),
    .inr (makes_oneName ?_), .inr (makes_oneName ?_), .inr (makes_nameThenOn ?_),
    .inr (makes_objectName ?_), .inr (makes_extensionName ?_), .inr (makes_columnTable ?_),
    .inr (makes_calledName ?_), .inl trivial, .inr (makes_nameThenOn ?_), ?_⟩
  all_goals simp

theorem grantOrRevoke_iff {ws : List Word} {st : Statement} :
    grantOrRevoke ws = some st ↔ .ofList (leadWord ws) ∈ ["grant", "revoke"] ∧ st = .grantRevoke := by
  unfold grantOrRevoke
  rw [Option.ite_none_right_eq_some, List.contains_iff_mem, Option.some.injEq, eq_comm (a := st)]

theorem leadWord_of_grant {ws : List Word} (h : detectWords ws = some .grantRevoke) :
    .ofList (leadWord ws) ∈ ["grant", "revoke"] := by
  obtain ⟨f, hf, hread⟩ := List.exists_of_findSome?_eq_some h
  obtain ⟨us, hus, r, he, ht⟩ := exists_of_read hread
  rcases makes_no_grant f hf with rfl | hno
  · obtain rfl := List.mem_singleton.mp hus
    obtain rfl : r = ws := he
    exact (grantOrRevoke_iff.mp ht).1
  · exact absurd rfl (hno r _ ht)

theorem detectWords_grant_iff {ws : List Word} :
    detectWords ws = some .grantRevoke ↔ .ofList (leadWord ws) ∈ ["grant", "revoke"] := by
  refine ⟨leadWord_of_grant, fun h => detectWords_of_read (f := ⟨[], grantOrRevoke⟩) (by simp [forms]) ?_⟩
  unfold Form.read
  rw [readings, List.findSome?_singleton]
  exact grantOrRevoke_iff.mpr ⟨h, rfl⟩

theorem detect_grant_iff {s : List Char} :
    detect s = some .grantRevoke ↔ StartsWithWord "grant" s ∨ StartsWithWord "revoke" s := by
  rw [startsWithWord_iff (by decide), startsWithWord_iff (by decide)]
  exact detectWords_grant_iff.trans (by simp)

theorem detect_truncate {s : List Char} (h : StartsWithWord "truncate" s) : isDdl s = true ∧ detect s = none := by
  have hlead := (startsWithWord_iff (by decide)).mp h
  constructor
  · unfold isDdl
    rw [hlead]
    decide
  · rw [Option.eq_none_iff_forall_ne_some]
    intro st hst
    have hform := leadWord_of_detect hst
    rw [hlead] at hform
    exact absurd hform (by decide)

/-! ## Counting problems -/

theorem Statement.code_of_check {p : Policy} {st : Statement} {x : Problem} (h : x ∈ st.check p) :
    x.code ∈ nameCodes ∨ (x.code = .extensionNotSupported ∨ x.code = .extensionNotAllowed) ∨
      st = .grantRevoke ∧ x.code = .grantRevoke := by
  have names : x ∈ st.names.flatMap (fun n => p.checkName n.1 n.2) → x.code ∈ nameCodes := by
    intro h
    obtain ⟨n, -, h⟩ := List.mem_flatMap.mp h
    exact Policy.code_of_checkName h
  cases st with
  | createExtension extension => exact .inr (.inl (Policy.code_of_checkExtension (Option.mem_toList.mp h)))
  | grantRevoke =>
    obtain rfl := List.mem_singleton.mp h
    exact .inr (.inr ⟨rfl, rfl⟩)
  | _ => exact .inl (names h)

section
variable (p : Policy) (s : List Char)

/-- The number of problems with the code in a statement. -/
def countCode (code : Code) : Nat := (checkStatement p s).countP (·.code = code)

/-- Only a form has problems with a code that no name has, and the filter lets them all through. -/
theorem countCode_eq {code : Code} (hcode : code ∉ nameCodes) :
    countCode p s code = if isDdl s then (formProblems p s).countP (·.code = code) else 0 := by
  have hrefs : (schemaProblems p s).countP (·.code = code) = 0 := by
    rw [List.countP_eq_zero]
    intro x hx he
    obtain ⟨schema, -, hx⟩ := List.mem_filterMap.mp hx
    exact hcode (of_decide_eq_true he ▸ Policy.code_of_checkSchema hx)
  have hkeys : (foreignKeyProblems p s).countP (·.code = code) = 0 := by
    rw [List.countP_eq_zero]
    intro x hx he
    obtain ⟨target, -, hx⟩ := List.mem_flatMap.mp hx
    exact hcode (of_decide_eq_true he ▸ Policy.code_of_checkName hx)
  have hkept : ((formProblems p s).filter fun x => !(x.isSchema && (schemaProblems p s).contains x)).countP
      (·.code = code) = (formProblems p s).countP (·.code = code) := by
    rw [List.countP_filter]
    apply List.countP_congr
    intro x _
    have hschema : x.code = code → x.isSchema = false := by
      intro he
      rw [Bool.eq_false_iff]
      intro hx
      exact hcode (he ▸ List.mem_append_left _ (x.isSchema_iff.mp hx))
    by_cases he : x.code = code
    · simp [he, hschema he]
    · simp [he]
  unfold countCode checkStatement
  split
  · rw [List.countP_append, List.countP_append, hrefs, hkeys, hkept]
    simp
  · exact hrefs

theorem countCode_unrecognizedDdl :
    countCode p s .unrecognizedDdl = if isDdl s = true ∧ detect s = none then 1 else 0 := by
  rw [countCode_eq p s (by decide)]
  unfold formProblems
  cases hst : detect s with
  | none => by_cases hd : isDdl s = true <;> simp [hd, Problem.code]
  | some st =>
    have hzero : (st.check p).countP (·.code = .unrecognizedDdl) = 0 := by
      rw [List.countP_eq_zero]
      intro x hx he
      rcases st.code_of_check hx with h | h | ⟨-, h⟩ <;> simp_all [nameCodes, schemaCodes]
    simp [hzero]

theorem countCode_grantRevoke :
    countCode p s .grantRevoke = if detect s = some .grantRevoke then 1 else 0 := by
  rw [countCode_eq p s (by decide)]
  unfold formProblems
  cases hst : detect s with
  | none => simp [Problem.code]
  | some st =>
    rw [if_pos (isDdl_of_detect hst), Option.elim_some]
    by_cases hg : st = .grantRevoke
    · subst hg
      rfl
    · rw [if_neg (by simpa using hg), List.countP_eq_zero]
      intro x hx he
      rcases st.code_of_check hx with h | h | ⟨h, -⟩ <;> simp_all [nameCodes, schemaCodes]

theorem countCode_extension {extension : String} (hst : detect s = some (.createExtension extension))
    (hp : p.allowedExtensions = []) : countCode p s .extensionNotSupported = 1 := by
  rw [countCode_eq p s (by decide), if_pos (isDdl_of_detect hst)]
  simp [formProblems, hst, Statement.check, Policy.checkExtension, hp, Problem.code]

/-- **Default deny.** What is not recognized, is a grant or creates an extension while none is allowed is denied
exactly once, whatever schemas and foreign keys are in the statement. -/
theorem count_denials :
    countCode p s .unrecognizedDdl = (if isDdl s = true ∧ detect s = none then 1 else 0) ∧
      (StartsWithWord "truncate" s → countCode p s .unrecognizedDdl = 1) ∧
      (StartsWithWord "grant" s ∨ StartsWithWord "revoke" s → countCode p s .grantRevoke = 1) ∧
      (¬ (StartsWithWord "grant" s ∨ StartsWithWord "revoke" s) → countCode p s .grantRevoke = 0) ∧
      ∀ extension, detect s = some (.createExtension extension) → p.allowedExtensions = [] →
        countCode p s .extensionNotSupported = 1 := by
  have hgrant := countCode_grantRevoke p s
  refine ⟨countCode_unrecognizedDdl p s, fun h => ?_, fun h => ?_, fun h => ?_, fun _ => countCode_extension p s⟩
  · rw [countCode_unrecognizedDdl, if_pos (detect_truncate h)]
  · rw [hgrant, if_pos (detect_grant_iff.mpr h)]
  · rw [hgrant, if_neg (mt detect_grant_iff.mp h)]

end

/-- Three statements that refer to a blocked schema, and a word that only starts like `grant`. -/
theorem count_denials_words :
    let p : Policy := ⟨"cb_", ["public"], ["auth"], []⟩
    let truncated := "truncate auth.a references b".toList
    let revoked := "revoke all on auth.a references b".toList
    let created := "create extension x with schema auth.a references b".toList
    let granted := "granted auth.a".toList
    (StartsWithWord "truncate" truncated ∧ countCode p truncated .unrecognizedDdl = 1) ∧
      (StartsWithWord "revoke" revoked ∧ countCode p revoked .grantRevoke = 1) ∧
      (detect created = some (.createExtension "x") ∧ countCode p created .extensionNotSupported = 1) ∧
      ¬ (StartsWithWord "grant" granted ∨ StartsWithWord "revoke" granted) ∧ countCode p granted .grantRevoke = 0 := by
  intro p truncated revoked created granted
  have htruncated : StartsWithWord "truncate" truncated := (startsWithWord_iff (by decide)).mpr (by decide +kernel)
  have hrevoked : StartsWithWord "revoke" revoked := (startsWithWord_iff (by decide)).mpr (by decide +kernel)
  have hcreated : detect created = some (.createExtension "x") := by decide +kernel
  have hgranted : ¬ (StartsWithWord "grant" granted ∨ StartsWithWord "revoke" granted) := by
    rw [startsWithWord_iff (by decide), startsWithWord_iff (by decide)]
    decide +kernel
  exact ⟨⟨htruncated, (count_denials p truncated).2.1 htruncated⟩,
    ⟨hrevoked, (count_denials p revoked).2.2.1 (.inr hrevoked)⟩,
    ⟨hcreated, (count_denials p created).2.2.2.2 "x" hcreated rfl⟩,
    hgranted, (count_denials p granted).2.2.2.1 hgranted⟩

end Sql

end MigrationLint
