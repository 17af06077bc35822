import Mathlib.Data.List.Forall2
import MigrationLint.Proofs.Verdict

/-!
# Two policies

A policy decides which problems there are, never in which order: a policy that allows more leaves some of
them out (`checkStatement_fewer`), and the list of blocked schemas only chooses the words in which a schema
is refused (`checkStatement_unblocked`). What the form repeats is told by the schemas alone (`checkStatement_eq`).
-/

namespace MigrationLint

/-- The problem as a policy that blocks no schema words it. -/
def Problem.unblocked : Problem → Problem
  | blockedSchema schema => schemaNotAllowlisted schema
  | x => x

theorem Problem.schema?_unblocked (x : Problem) : x.unblocked.schema? = x.schema? := by cases x <;> rfl

/-- Each problem of the first list stands for one of the second, in order, about the same schema if about any. -/
def Fewer (l' l : List Problem) : Prop := (l'.map Problem.schema?).Sublist (l.map Problem.schema?)

namespace Fewer

variable {l l' r r' : List Problem}

theorem refl (l : List Problem) : Fewer l l := List.Sublist.refl _

theorem nil (l : List Problem) : Fewer [] l := List.nil_sublist _

theorem length_le (h : Fewer l' l) : l'.length ≤ l.length := by
  have := List.Sublist.length_le h
  rwa [List.length_map, List.length_map] at this

theorem append (hl : Fewer l' l) (hr : Fewer r' r) : Fewer (l' ++ r') (l ++ r) := by
  unfold Fewer
  rw [List.map_append, List.map_append]
  exact List.Sublist.append hl hr

theorem flatMap {α : Type} {f g : α → List Problem} (h : ∀ a, Fewer (f a) (g a)) (xs : List α) :
    Fewer (xs.flatMap f) (xs.flatMap g) := by
  induction xs with
  | nil => exact refl []
  | cons x xs ih =>
    rw [List.flatMap_cons, List.flatMap_cons]
    exact (h x).append ih

theorem filter (h : Fewer l' l) (keep : Option String → Bool) :
    Fewer (l'.filter fun x => keep x.schema?) (l.filter fun x => keep x.schema?) := by
  have hmap : ∀ l : List Problem, (l.filter fun x => keep x.schema?).map Problem.schema? =
      (l.map Problem.schema?).filter keep := fun l => List.filter_map.symm
  unfold Fewer
  rw [hmap, hmap]
  exact List.Sublist.filter keep h

end Fewer

namespace Policy

/-- The first policy allows all that the second allows, whatever either of them blocks. -/
structure Relaxes (p' p : Policy) : Prop where
  schemas : p.allowedSchemas ⊆ p'.allowedSchemas
  extensions : p.allowedExtensions ⊆ p'.allowedExtensions
  required : p'.requiredPrefix.toList <+: p.requiredPrefix.toList

/-- The policy without its list of blocked schemas. -/
def unblocked (p : Policy) : Policy := { p with blockedSchemas := [] }

/-! ## The problems of a name -/

section
variable (p : Policy) (context raw : String)

/-- A problem about a schema is the one that the policy has with this schema. -/
def Tells (p : Policy) (x : Problem) : Prop := ∀ schema, x.schema? = some schema → p.checkSchema (some schema) = some x

theorem tells_of_none {x : Problem} (h : x.schema? = none) : p.Tells x := by
  intro schema hx
  cases h.symm.trans hx

theorem tells_of_checkName {x : Problem} (h : x ∈ p.checkName context raw) : p.Tells x := by
  unfold checkName at h
  split at h
  · rename_i schema name _
    rcases List.mem_append.mp h with h | h
    · have hx := Option.mem_toList.mp h
      intro schema' hs
      rw [schema?_of_checkSchema hx] at hs
      rw [← hs]
      exact hx
    · exact p.tells_of_none (schema?_of_checkPrefix (Option.mem_toList.mp h))
  · obtain rfl := List.mem_singleton.mp h
    exact p.tells_of_none rfl

theorem checkSchema_unblocked (schema : Option String) :
    p.unblocked.checkSchema schema = (p.checkSchema schema).map Problem.unblocked := by
  cases schema with
  | none => rfl
  | some schema =>
    have hallows : p.unblocked.allowsSchema schema = p.allowsSchema schema := rfl
    have hblocks : p.unblocked.blocksSchema schema = false := rfl
    simp only [checkSchema, hallows, hblocks]
    cases p.allowsSchema schema <;> cases p.blocksSchema schema <;> rfl

theorem checkPrefix_unblocked (name : Option String) :
    p.unblocked.checkPrefix context name = (p.checkPrefix context name).map Problem.unblocked := by
  have hfront : p.unblocked.hasPrefix = p.hasPrefix := rfl
  unfold checkPrefix
  rw [hfront]
  split <;> rfl

theorem checkName_unblocked : p.unblocked.checkName context raw = (p.checkName context raw).map Problem.unblocked := by
  unfold checkName
  split
  · rw [checkSchema_unblocked, checkPrefix_unblocked, List.map_append, Option.toList_map, Option.toList_map]
  · rfl

theorem checkExtension_unblocked (extension : String) :
    p.unblocked.checkExtension extension = (p.checkExtension extension).map Problem.unblocked := by
  have hallowed : p.unblocked.allowedExtensions = p.allowedExtensions := rfl
  unfold checkExtension
  rw [hallowed]
  split
  · rfl
  · split <;> rfl

end

namespace Relaxes

variable {p p' : Policy} (h : p'.Relaxes p)
include h

theorem checkSchema (schema : Option String) :
    Fewer (p'.checkSchema schema).toList (p.checkSchema schema).toList := by
  cases hx' : p'.checkSchema schema with
  | none => exact .nil _
  | some x' =>
    cases hx : p.checkSchema schema with
    | none =>
      cases schema with
      | none => cases hx'
      | some schema =>
        have hall := h.schemas (p.checkSchema_eq_none_iff.mp hx)
        rw [p'.checkSchema_eq_none_iff.mpr hall] at hx'
        cases hx'
    | some x =>
      unfold Fewer
      rw [Option.toList_some, Option.toList_some, List.map_singleton, List.map_singleton,
        schema?_of_checkSchema hx', schema?_of_checkSchema hx]

theorem checkPrefix (context : String) (name : Option String) :
    Fewer (p'.checkPrefix context name).toList (p.checkPrefix context name).toList := by
  have hfront : ∀ n, p.hasPrefix n = true → p'.hasPrefix n = true := by
    intro n hn
    unfold hasPrefix at hn ⊢
    rw [List.isPrefixOf_iff_prefix] at hn ⊢
    exact h.required.trans hn
  unfold Policy.checkPrefix
  by_cases hn : name.any p.hasPrefix = true
  · have hn' : name.any p'.hasPrefix = true := by
      cases name with
      | none => cases hn
      | some n => exact hfront n hn
    rw [if_pos hn, if_pos hn']
    exact .refl []
  · rw [if_neg hn]
    split
    · exact .nil _
    · exact .refl _

theorem checkName (context raw : String) : Fewer (p'.checkName context raw) (p.checkName context raw) := by
  unfold Policy.checkName
  split
  · exact (h.checkSchema _).append (h.checkPrefix context _)
  · exact .refl _

theorem checkExtension (extension : String) :
    Fewer (p'.checkExtension extension).toList (p.checkExtension extension).toList := by
  cases hx' : p'.checkExtension extension with
  | none => exact .nil _
  | some x' =>
    cases hx : p.checkExtension extension with
    | none =>
      have hall := h.extensions (p.checkExtension_eq_none_iff.mp hx)
      rw [p'.checkExtension_eq_none_iff.mpr hall] at hx'
      cases hx'
    | some x =>
      unfold Fewer
      rw [Option.toList_some, Option.toList_some, List.map_singleton, List.map_singleton,
        schema?_of_checkExtension hx', schema?_of_checkExtension hx]

end Relaxes

end Policy

namespace Sql

/-! ## The problems of a statement -/

section
variable (p : Policy) (s : List Char)

theorem Statement.tells_of_check {st : Statement} {x : Problem} (h : x ∈ st.check p) : p.Tells x := by
  have names : x ∈ st.names.flatMap (fun n => p.checkName n.1 n.2) → p.Tells x := by
    intro h
    obtain ⟨n, -, h⟩ := List.mem_flatMap.mp h
    exact p.tells_of_checkName _ _ h
  cases st with
  | createExtension extension => exact p.tells_of_none (Policy.schema?_of_checkExtension (Option.mem_toList.mp h))
  | grantRevoke =>
    obtain rfl := List.mem_singleton.mp h
    exact p.tells_of_none rfl
  | _ => exact names h

theorem tells_of_formProblems {x : Problem} (h : x ∈ formProblems p s) : p.Tells x := by
  unfold formProblems at h
  cases hd : detect s with
  | none =>
    rw [hd, Option.elim_none] at h
    obtain rfl := List.mem_singleton.mp h
    exact p.tells_of_none rfl
  | some st =>
    rw [hd, Option.elim_some] at h
    exact st.tells_of_check p h

theorem mem_schemaProblems_iff {x : Problem} {schema : String} (hx : x.schema? = some schema) (ht : p.Tells x) :
    x ∈ schemaProblems p s ↔ schema ∈ schemaRefs s := by
  unfold schemaProblems
  rw [List.mem_filterMap]
  constructor
  · intro hm
    obtain ⟨ref, hm, href⟩ := hm
    have := (Policy.schema?_of_checkSchema href).symm.trans hx
    obtain rfl := Option.some.inj this
    exact hm
  · intro hm
    exact ⟨schema, hm, ht schema hx⟩

/-- What the form repeats is told by the schemas that the statement refers to, under every policy. -/
theorem checkStatement_eq :
    checkStatement p s =
      if isDdl s then
        schemaProblems p s ++ (formProblems p s).filter (fun x => !x.schema?.any (schemaRefs s).contains) ++
          foreignKeyProblems p s
      else schemaProblems p s := by
  have hrepeats : (formProblems p s).filter (fun x => !(x.isSchema && (schemaProblems p s).contains x)) =
      (formProblems p s).filter fun x => !x.schema?.any (schemaRefs s).contains := by
    apply List.filter_congr
    intro x hx
    rw [x.isSchema_eq]
    cases hs : x.schema? with
    | none => rfl
    | some schema =>
      have hfound : (schemaProblems p s).contains x = (schemaRefs s).contains schema := by
        rw [Bool.eq_iff_iff, List.contains_iff_mem, List.contains_iff_mem]
        exact mem_schemaProblems_iff p s hs (tells_of_formProblems p s hx)
      rw [Option.isSome_some, Bool.true_and, Option.any_some, hfound]
  simp only [checkStatement, hrepeats]

theorem schemaProblems_unblocked : schemaProblems p.unblocked s = (schemaProblems p s).map Problem.unblocked := by
  unfold schemaProblems
  rw [List.map_filterMap]
  congr 1
  funext schema
  exact p.checkSchema_unblocked _

theorem Statement.check_unblocked (st : Statement) : st.check p.unblocked = (st.check p).map Problem.unblocked := by
  have names : st.names.flatMap (fun n => p.unblocked.checkName n.1 n.2) =
      (st.names.flatMap fun n => p.checkName n.1 n.2).map Problem.unblocked := by
    rw [List.map_flatMap]
    congr 1
    funext n
    exact p.checkName_unblocked _ _
  cases st with
  | createExtension extension => simp only [Statement.check, p.checkExtension_unblocked, Option.toList_map]
  | grantRevoke => rfl
  | _ => exact names

theorem formProblems_unblocked : formProblems p.unblocked s = (formProblems p s).map Problem.unblocked := by
  unfold formProblems
  cases detect s with
  | none => rfl
  | some st => exact st.check_unblocked p

theorem foreignKeyProblems_unblocked :
    foreignKeyProblems p.unblocked s = (foreignKeyProblems p s).map Problem.unblocked := by
  unfold foreignKeyProblems
  rw [List.map_flatMap]
  congr 1
  funext target
  exact p.checkName_unblocked _ _

theorem checkStatement_unblocked : checkStatement p.unblocked s = (checkStatement p s).map Problem.unblocked := by
  rw [checkStatement_eq, checkStatement_eq, schemaProblems_unblocked, formProblems_unblocked,
    foreignKeyProblems_unblocked, List.filter_map]
  have hkept : (fun x : Problem => !x.schema?.any (schemaRefs s).contains) ∘ Problem.unblocked =
      fun x => !x.schema?.any (schemaRefs s).contains := by
    funext x
    rw [Function.comp_apply, x.schema?_unblocked]
  rw [hkept]
  split
  · rw [List.map_append, List.map_append]
  · rfl

end

section
variable {p p' : Policy} (h : p'.Relaxes p) (s : List Char)
include h

theorem schemaProblems_fewer : Fewer (schemaProblems p' s) (schemaProblems p s) := by
  have flat : ∀ p : Policy,
      schemaProblems p s = (schemaRefs s).flatMap fun schema => (p.checkSchema (some schema)).toList :=
    fun p => List.filterMap_eq_flatMap_toList _ _
  rw [flat, flat]
  exact .flatMap (fun schema => h.checkSchema (some schema)) _

theorem Statement.check_fewer (st : Statement) : Fewer (st.check p') (st.check p) := by
  have names :
      Fewer (st.names.flatMap fun n => p'.checkName n.1 n.2) (st.names.flatMap fun n => p.checkName n.1 n.2) := by
    apply Fewer.flatMap
    intro n
    exact h.checkName n.1 n.2
  cases st with
  | createExtension extension => exact h.checkExtension extension
  | grantRevoke => exact .refl _
  | _ => exact names

theorem formProblems_fewer : Fewer (formProblems p' s) (formProblems p s) := by
  unfold formProblems
  cases detect s with
  | none => exact .refl _
  | some st => exact st.check_fewer h

theorem foreignKeyProblems_fewer : Fewer (foreignKeyProblems p' s) (foreignKeyProblems p s) :=
  .flatMap (fun target => h.checkName "foreign key" target) _

theorem checkStatement_fewer : Fewer (checkStatement p' s) (checkStatement p s) := by
  have hrefs := schemaProblems_fewer h s
  rw [checkStatement_eq, checkStatement_eq]
  split
  · have hform := (formProblems_fewer h s).filter fun schema => !schema.any (schemaRefs s).contains
    exact (hrefs.append hform).append (foreignKeyProblems_fewer h s)
  · exact hrefs

end

/-! ## The problems of a text -/

theorem forall₂_check {R : List Problem → List Problem → Prop} {p p' : Policy}
    (h : ∀ s, R (checkStatement p' s) (checkStatement p s)) (sql : String) :
    List.Forall₂ (fun x' x => x'.statement = x.statement ∧ R x'.problems x.problems) (check p' sql) (check p sql) := by
  unfold check
  rw [List.forall₂_map_left_iff, List.forall₂_map_right_iff, List.forall₂_same]
  exact fun s _ => ⟨rfl, h s⟩

/-- **Two policies.** A policy that allows more finds the same statements and at most as many problems in each;
what it blocks decides of no problem, but only under which code a schema that is not allowed is reported. -/
theorem check_relaxes (sql : String) :
    (∀ p p' : Policy, p'.Relaxes p →
      List.Forall₂ (fun x' x => x'.statement = x.statement ∧ x'.problems.length ≤ x.problems.length)
        (check p' sql) (check p sql)) ∧
      ∀ (p : Policy) (blocked : List String),
        List.Forall₂ (fun x' x =>
            x'.statement = x.statement ∧ x'.problems.map Problem.unblocked = x.problems.map Problem.unblocked)
          (check { p with blockedSchemas := blocked } sql) (check p sql) := by
  constructor
  · intro p p' h
    exact forall₂_check (R := fun l' l => l'.length ≤ l.length) (fun s => (checkStatement_fewer h s).length_le) sql
  · intro p blocked
    refine forall₂_check (R := fun l' l => l'.map Problem.unblocked = l.map Problem.unblocked) (fun s => ?_) sql
    have hsame : Policy.unblocked { p with blockedSchemas := blocked } = p.unblocked := rfl
    rw [← checkStatement_unblocked, ← checkStatement_unblocked, hsame]

/-- With the first extension allowed another problem takes the place of the one about the second. -/
theorem check_relaxes_extension :
    let p : Policy := ⟨"cb_", ["public"], [], []⟩
    let p' : Policy := ⟨"cb", ["public", "app"], ["auth"], ["pgcrypto"]⟩
    let sql := "create extension pgcrypto; create extension postgis; create table auth.cbx (a int, b app.t);"
    p'.Relaxes p ∧
      List.Forall₂ (fun x' x => x'.statement = x.statement ∧ x'.problems.length ≤ x.problems.length)
        (check p' sql) (check p sql) ∧
      (check p sql).map (·.problems) =
        [[.extensionNotSupported], [.extensionNotSupported],
          [.schemaNotAllowlisted "auth", .schemaNotAllowlisted "app", .missingPrefix "table" (some "cbx")]] ∧
      (check p' sql).map (·.problems) = [[], [.extensionNotAllowed "postgis"], [.blockedSchema "auth"]] := by
  have h : Policy.Relaxes ⟨"cb", ["public", "app"], ["auth"], ["pgcrypto"]⟩ ⟨"cb_", ["public"], [], []⟩ :=
    ⟨by simp, by simp, by decide⟩
  exact ⟨h, (check_relaxes _).1 _ _ h, by decide +kernel, by decide +kernel⟩

end Sql

end MigrationLint
