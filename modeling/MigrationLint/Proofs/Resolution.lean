import Mathlib.Data.List.Nodup
import Mathlib.Data.String.Basic
import MigrationLint.Policy.Load
import MigrationLint.Proofs.Trimming

/-!
# Resolution of a policy

A policy takes each field from the settings above its file, or else from the file, and nothing of it from both
(`Policy.resolve_eq_ok_iff`). So a field of the settings reaches the same field of the policy only, and of several
replacements of a set the last one counts.
-/

namespace MigrationLint

open Text

/-! ## Sets in lowercase -/

/-- The set holds the items in lowercase, each once and in order. -/
structure IsLowercaseSet (items set : List String) : Prop where
  mem_iff : ∀ x, x ∈ set ↔ ∃ item ∈ items, lowercase item = x
  sorted : set.Pairwise (· < ·)

theorem mem_insertSorted {x y : String} {xs : List String} : y ∈ insertSorted x xs ↔ y = x ∨ y ∈ xs := by
  fun_induction insertSorted x xs with
  | case1 => simp
  | case2 => simp
  | case3 => simp
  | case4 z zs _ _ ih =>
    rw [List.mem_cons, ih, List.mem_cons]
    tauto

theorem sorted_insertSorted {x : String} {xs : List String} (h : xs.Pairwise (· < ·)) :
    (insertSorted x xs).Pairwise (· < ·) := by
  fun_induction insertSorted x xs with
  | case1 => exact List.pairwise_singleton _ x
  | case2 z zs hlt =>
    refine List.pairwise_cons.mpr ⟨fun y hy => ?_, h⟩
    rcases List.mem_cons.mp hy with rfl | hy
    · exact hlt
    · exact hlt.trans ((List.pairwise_cons.mp h).1 y hy)
  | case3 => exact h
  | case4 z zs hlt hne ih =>
    rw [List.pairwise_cons] at h
    refine List.pairwise_cons.mpr ⟨fun y hy => ?_, ih h.2⟩
    rcases mem_insertSorted.mp hy with rfl | hy
    · exact lt_of_le_of_ne (not_lt.mp hlt) (Ne.symm hne)
    · exact h.1 y hy

theorem isLowercaseSet_lowercaseSet (items : List String) : IsLowercaseSet items (lowercaseSet items) := by
  unfold lowercaseSet
  induction items with
  | nil => exact ⟨by simp, .nil⟩
  | cons item items ih =>
    refine ⟨fun x => ?_, sorted_insertSorted ih.sorted⟩
    rw [List.map_cons, List.foldr_cons, mem_insertSorted, ih.mem_iff, List.exists_mem_cons_iff]
    tauto

theorem IsLowercaseSet.unique {items set set' : List String} (h : IsLowercaseSet items set)
    (h' : IsLowercaseSet items set') : set = set' := by
  have hperm : set.Perm set' := by
    rw [List.perm_ext_iff_of_nodup h.sorted.nodup h'.sorted.nodup]
    exact fun x => (h.mem_iff x).trans (h'.mem_iff x).symm
  exact hperm.eq_of_pairwise (fun _ _ _ _ hab hba => absurd hab hba.asymm) h.sorted h'.sorted

/-! ## Fields -/

/-- The fields that hold a set. -/
inductive SetField where
  | allowedSchemas
  | blockedSchemas
  | allowedExtensions
  deriving DecidableEq, Repr

inductive Field where
  | requiredPrefix
  | set (field : SetField)
  deriving DecidableEq, Repr

/-- The items of a field that nothing sets. -/
def SetField.initial : SetField → List String
  | allowedSchemas => ["public"]
  | blockedSchemas => []
  | allowedExtensions => []

namespace Settings

def items? (s : Settings) : SetField → Option (List String)
  | .allowedSchemas => s.allowedSchemas
  | .blockedSchemas => s.blockedSchemas
  | .allowedExtensions => s.allowedExtensions

/-- The settings differ in one field at most. -/
structure SameBut (field : Field) (a b : Settings) : Prop where
  requiredPrefix : field ≠ .requiredPrefix → a.requiredPrefix = b.requiredPrefix
  items : ∀ set, field ≠ .set set → a.items? set = b.items? set

/-- The settings hold each field that the upper ones hold, and of the other fields those of the lower ones. -/
structure Overlays (lower upper whole : Settings) : Prop where
  requiredPrefix : whole.requiredPrefix = upper.requiredPrefix.or lower.requiredPrefix
  items : ∀ set, whole.items? set = (upper.items? set).or (lower.items? set)

/-- The prefix of the upper settings if they hold one, even a blank one, or else that of the lower ones. -/
def chosenPrefix (lower upper : Settings) : String := upper.requiredPrefix.getD (lower.requiredPrefix.getD "")

def chosenItems (lower upper : Settings) (field : SetField) : List String :=
  (upper.items? field).getD ((lower.items? field).getD field.initial)

end Settings

namespace Policy

def set (p : Policy) : SetField → List String
  | .allowedSchemas => p.allowedSchemas
  | .blockedSchemas => p.blockedSchemas
  | .allowedExtensions => p.allowedExtensions

def replace (p : Policy) : SetField → List String → Policy
  | .allowedSchemas => p.withAllowedSchemas
  | .blockedSchemas => p.withBlockedSchemas
  | .allowedExtensions => p.withAllowedExtensions

structure SameBut (field : Field) (p q : Policy) : Prop where
  requiredPrefix : field ≠ .requiredPrefix → p.requiredPrefix = q.requiredPrefix
  set : ∀ set, field ≠ .set set → p.set set = q.set set

theorem ext_fields {p q : Policy} (hrequired : p.requiredPrefix = q.requiredPrefix)
    (hset : ∀ field, p.set field = q.set field) : p = q := by
  cases p
  cases q
  obtain rfl := hrequired
  obtain rfl := hset .allowedSchemas
  obtain rfl := hset .blockedSchemas
  obtain rfl := hset .allowedExtensions
  rfl

theorem requiredPrefix_replace (p : Policy) (field : SetField) (items : List String) :
    (p.replace field items).requiredPrefix = p.requiredPrefix := by
  cases field <;> rfl

theorem set_replace (p : Policy) (field other : SetField) (items : List String) :
    (p.replace field items).set other = if field = other then lowercaseSet items else p.set other := by
  cases field <;> cases other <;> rfl

/-! ## Sequences of replacements -/

/-- The items of the last replacement of a field. -/
def lastItems? (calls : List (SetField × List String)) (field : SetField) : Option (List String) :=
  ((calls.filter (·.1 = field)).getLast?).map Prod.snd

theorem lastItems?_cons (call : SetField × List String) (calls : List (SetField × List String)) (field : SetField) :
    lastItems? (call :: calls) field =
      (lastItems? calls field).or (if call.1 = field then some call.2 else none) := by
  unfold lastItems?
  by_cases h : call.1 = field
  · rw [List.filter_cons_of_pos (by simpa using h), if_pos h, List.getLast?_cons]
    cases (calls.filter (·.1 = field)).getLast? <;> rfl
  · rw [List.filter_cons_of_neg (by simpa using h), if_neg h, Option.or_none]

/-- The policy after replacements, one after the other. -/
def replaceAll (p : Policy) (calls : List (SetField × List String)) : Policy :=
  calls.foldl (fun p call => p.replace call.1 call.2) p

theorem requiredPrefix_replaceAll (p : Policy) (calls : List (SetField × List String)) :
    (p.replaceAll calls).requiredPrefix = p.requiredPrefix := by
  induction calls generalizing p with
  | nil => rfl
  | cons call calls ih => exact (ih _).trans (requiredPrefix_replace p _ _)

theorem set_replaceAll (p : Policy) (calls : List (SetField × List String)) (field : SetField) :
    (p.replaceAll calls).set field = ((lastItems? calls field).map lowercaseSet).getD (p.set field) := by
  induction calls generalizing p with
  | nil => rfl
  | cons call calls ih =>
    have hstep : (p.replaceAll (call :: calls)).set field = _ := ih (p.replace call.1 call.2)
    rw [hstep, lastItems?_cons, set_replace]
    cases lastItems? calls field with
    | some items => rfl
    | none =>
      split <;> rfl

/-! ## Resolving -/

theorem new_eq (required : String) :
    new required =
      if IsBlankText required.toList then .error .missingPrefix
      else .ok ⟨.ofList (lower (trim required.toList)), lowercaseSet ["public"], [], []⟩ := by
  have hempty : String.ofList (lower (trim required.toList)) = "" ↔ IsBlankText required.toList := by
    rw [← trim_eq_nil_iff, ← lower_eq_nil_iff, ← String.toList_inj, String.toList_ofList]
    rfl
  unfold new
  simp only [hempty]

/-- The policy of chosen fields. -/
def ofFields (required : String) (items : SetField → List String) : Policy :=
  ⟨.ofList (lower (trim required.toList)), lowercaseSet (items .allowedSchemas), lowercaseSet (items .blockedSchemas),
    lowercaseSet (items .allowedExtensions)⟩

theorem set_ofFields (required : String) (items : SetField → List String) (field : SetField) :
    (ofFields required items).set field = lowercaseSet (items field) := by
  cases field <;> rfl

open Settings (chosenPrefix chosenItems)

theorem resolve_eq (file above : Settings) :
    resolve file above =
      if IsBlankText (chosenPrefix file above).toList then .error .missingPrefix
      else .ok (ofFields (chosenPrefix file above) (chosenItems file above)) := by
  obtain ⟨p, a, b, x⟩ := above
  obtain ⟨p', a', b', x'⟩ := file
  have hprefix : (p.or p').getD "" = p.getD (p'.getD "") := by cases p <;> rfl
  rw [resolve, ofSettings, Settings.onTopOf, new_eq, hprefix, chosenPrefix]
  split
  · rfl
  · -- a set is replaced where one of the two sources holds it, and else stays as it starts
    cases a <;> cases a' <;> cases b <;> cases b' <;> cases x <;> cases x' <;> rfl

/-- The policy has the fields that are chosen from a file and the settings above it. -/
structure Resolves (file above : Settings) (p : Policy) : Prop where
  requiredPrefix : ∃ name, Trims (chosenPrefix file above).toList name ∧ p.requiredPrefix.toList = lower name
  set : ∀ field, IsLowercaseSet (chosenItems file above field) (p.set field)

theorem resolves_ofFields (file above : Settings) :
    Resolves file above (ofFields (chosenPrefix file above) (chosenItems file above)) where
  requiredPrefix := ⟨_, trims_trim _, String.toList_ofList⟩
  set field := by
    rw [set_ofFields]
    exact isLowercaseSet_lowercaseSet _

theorem Resolves.unique {file above : Settings} {p q : Policy} (hp : Resolves file above p)
    (hq : Resolves file above q) : p = q := by
  obtain ⟨name, hname, hp'⟩ := hp.requiredPrefix
  obtain ⟨name', hname', hq'⟩ := hq.requiredPrefix
  refine ext_fields ?_ fun field => (hp.set field).unique (hq.set field)
  rw [← String.toList_inj, hp', hq', hname.eq_trim, hname'.eq_trim]

theorem resolve_eq_ok_iff {file above : Settings} {p : Policy} :
    resolve file above = .ok p ↔
      ¬ IsBlankText (chosenPrefix file above).toList ∧ Resolves file above p := by
  have hfields := resolves_ofFields file above
  rw [resolve_eq]
  split
  · rename_i h
    simp [h]
  · rename_i h
    rw [Except.ok.injEq]
    exact ⟨fun e => ⟨h, e ▸ hfields⟩, fun hp => hfields.unique hp.2⟩

theorem resolve_eq_error_iff {file above : Settings} {e : PolicyError} :
    resolve file above = .error e ↔ IsBlankText (chosenPrefix file above).toList ∧ e = .missingPrefix := by
  rw [resolve_eq]
  split
  · rename_i h
    simp [h, eq_comm]
  · rename_i h
    simp [h]

theorem Resolves.requiredPrefix_ne_empty {file above : Settings} {p : Policy} (hp : Resolves file above p)
    (h : ¬ IsBlankText (chosenPrefix file above).toList) : p.requiredPrefix ≠ "" := by
  obtain ⟨name, hname, he⟩ := hp.requiredPrefix
  rw [Ne, ← String.toList_inj, he]
  refine fun hempty => h ?_
  rw [← trim_eq_nil_iff, ← hname.eq_trim]
  exact lower_eq_nil_iff.mp hempty

theorem resolve_overlay {file above whole : Settings} (h : Settings.Overlays file above whole) :
    resolve whole .empty = resolve file above := by
  have hprefix : chosenPrefix whole .empty = chosenPrefix file above := by
    rw [chosenPrefix, chosenPrefix, h.requiredPrefix]
    cases above.requiredPrefix <;> rfl
  have hitems : chosenItems whole .empty = chosenItems file above := by
    funext field
    have hnone : Settings.empty.items? field = none := by cases field <;> rfl
    rw [chosenItems, chosenItems, hnone, h.items]
    cases above.items? field <;> rfl
  rw [resolve_eq, resolve_eq, hprefix, hitems]

section
variable {field : Field} {file file' above above' : Settings} (hfile : file.SameBut field file')
  (habove : above.SameBut field above')
include hfile habove

theorem chosenPrefix_eq (h : field ≠ .requiredPrefix) : chosenPrefix file above = chosenPrefix file' above' := by
  rw [chosenPrefix, chosenPrefix, hfile.requiredPrefix h, habove.requiredPrefix h]

theorem chosenItems_eq {set : SetField} (h : field ≠ .set set) :
    chosenItems file above set = chosenItems file' above' set := by
  rw [chosenItems, chosenItems, hfile.items set h, habove.items set h]

theorem resolve_sameBut {p q : Policy} (hp : resolve file above = .ok p) (hq : resolve file' above' = .ok q) :
    p.SameBut field q := by
  obtain ⟨-, hp⟩ := resolve_eq_ok_iff.mp hp
  obtain ⟨-, hq⟩ := resolve_eq_ok_iff.mp hq
  refine ⟨fun h => ?_, fun set h => ?_⟩
  · obtain ⟨name, hname, hp'⟩ := hp.requiredPrefix
    obtain ⟨name', hname', hq'⟩ := hq.requiredPrefix
    rw [← chosenPrefix_eq hfile habove h] at hname'
    rw [← String.toList_inj, hp', hq', hname.eq_trim, hname'.eq_trim]
  · refine (hp.set set).unique ?_
    rw [chosenItems_eq hfile habove h]
    exact hq.set set

theorem resolve_fails_iff (h : field ≠ .requiredPrefix) (e : PolicyError) :
    resolve file above = .error e ↔ resolve file' above' = .error e := by
  rw [resolve_eq_error_iff, resolve_eq_error_iff, chosenPrefix_eq hfile habove h]

end

/-- **Resolution, field by field.** A policy fails to resolve exactly if the prefix that is chosen is blank. Else it has
that prefix, trimmed and in lowercase, and for each set the items of the settings above the file, or else those of the
file, or else those it starts with. So settings may be laid over the file beforehand, a change of one field changes
that field of the policy only, and of replacements made one after the other only the last of each set counts. -/
theorem resolve_fieldwise :
    (∀ file above : Settings,
      (resolve file above = .error .missingPrefix ↔ IsBlankText (chosenPrefix file above).toList) ∧
      (¬ IsBlankText (chosenPrefix file above).toList →
        ∃ p, resolve file above = .ok p ∧ p.requiredPrefix ≠ "" ∧ Resolves file above p) ∧
      ∀ whole, Settings.Overlays file above whole → resolve whole .empty = resolve file above) ∧
    (∀ (field : Field) (file file' above above' : Settings),
      file.SameBut field file' → above.SameBut field above' →
        (∀ p q, resolve file above = .ok p → resolve file' above' = .ok q → p.SameBut field q) ∧
        (field ≠ .requiredPrefix → ∀ e, resolve file above = .error e ↔ resolve file' above' = .error e)) ∧
    ∀ (p : Policy) (calls : List (SetField × List String)),
      (p.replaceAll calls).requiredPrefix = p.requiredPrefix ∧
      (∀ field items, lastItems? calls field = some items → IsLowercaseSet items ((p.replaceAll calls).set field)) ∧
      (∀ field, lastItems? calls field = none → (p.replaceAll calls).set field = p.set field) ∧
      ∀ calls', (∀ field, lastItems? calls' field = lastItems? calls field) →
        p.replaceAll calls' = p.replaceAll calls := by
  refine ⟨fun file above => ⟨?_, fun h => ?_, fun whole => resolve_overlay⟩,
    fun field file file' above above' hfile habove =>
      ⟨fun p q => resolve_sameBut hfile habove, resolve_fails_iff hfile habove⟩,
    fun p calls => ⟨requiredPrefix_replaceAll p calls, fun field items h => ?_, fun field h => ?_, fun calls' h => ?_⟩⟩
  · rw [resolve_eq_error_iff, and_iff_left rfl]
  · have hp := resolves_ofFields file above
    exact ⟨_, resolve_eq_ok_iff.mpr ⟨h, hp⟩, hp.requiredPrefix_ne_empty h, hp⟩
  · rw [set_replaceAll, h]
    exact isLowercaseSet_lowercaseSet items
  · rw [set_replaceAll, h]
    rfl
  · refine ext_fields ?_ fun field => ?_
    · rw [requiredPrefix_replaceAll, requiredPrefix_replaceAll]
    · rw [set_replaceAll, set_replaceAll, h]

/-- A blank prefix and an empty list above the file hide what the file holds. -/
theorem resolve_fieldwise_hidden :
    let file : Settings := ⟨some "ab_", some ["Public", "APP", "app"], some ["auth"], none⟩
    let above : Settings := ⟨some " Cb_ ", none, some [], none⟩
    let blank : Settings := ⟨some " ", none, some [], none⟩
    resolve file above = .ok ⟨"cb_", ["app", "public"], [], []⟩ ∧ resolve file blank = .error .missingPrefix ∧
      (replaceAll ⟨"cb_", [], [], []⟩ [(.blockedSchemas, ["b"]), (.allowedSchemas, []), (.blockedSchemas, ["A"])]).set
        .blockedSchemas = ["a"] := by
  intro file above blank
  have hblank := (resolve_fieldwise.1 file blank).1.mpr (by decide)
  obtain ⟨p, hp, -, hfields⟩ := (resolve_fieldwise.1 file above).2.1 (by decide)
  have hlast := (resolve_fieldwise.2.2 ⟨"cb_", [], [], []⟩
    [(.blockedSchemas, ["b"]), (.allowedSchemas, []), (.blockedSchemas, ["A"])]).2.1 .blockedSchemas ["A"] (by decide)
  have htrims : Trims " Cb_ ".toList "Cb_".toList := by
    refine ⟨⟨[' '], [' '], by decide, by decide, by decide⟩, fun c hc => ?_, fun c hc => ?_⟩
    · obtain rfl : 'C' = c := Option.some.inj hc
      decide
    · obtain rfl : '_' = c := Option.some.inj hc
      decide
  refine ⟨hp.trans (congrArg _ (hfields.unique ⟨⟨"Cb_".toList, htrims, by decide⟩, fun field => ?_⟩)), hblank,
    hlast.unique (isLowercaseSet_lowercaseSet ["A"])⟩
  cases field
  · exact isLowercaseSet_lowercaseSet ["Public", "APP", "app"]
  · exact isLowercaseSet_lowercaseSet []
  · exact isLowercaseSet_lowercaseSet []

end Policy

end MigrationLint
