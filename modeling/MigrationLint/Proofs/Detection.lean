import MigrationLint.Proofs.Spellings

/-!
# Detection of names

Behind a spelling of its head each form takes the names that stand there, as far as their characters go. What
is behind the names does not matter, if no character at its front goes on with the last one.
-/

namespace MigrationLint.Sql

open Text

/-! ## Names and what ends them -/

/-- A name of characters of a kind that cannot be taken for an optional word. -/
structure IsName (isChar : Char → Bool) (n : Word) : Prop where
  ne_nil : n ≠ []
  chars : ∀ c ∈ n, isChar c = true
  not_optional : n ∉ optionals

/-- No character of the kind is at the front. -/
def Halts (isChar : Char → Bool) (s : List Char) : Prop := ∀ c ∈ s.head?, isChar c = false

theorem halts_nil (isChar : Char → Bool) : Halts isChar [] := by simp [Halts]

section
variable {isChar : Char → Bool} {n x : Word}

theorem Halts.of_imp {P : Char → Bool} (h : Halts isChar x) (hP : ∀ c, P c = true → isChar c = true) :
    Halts P x :=
  fun c hc => Bool.eq_false_iff.mpr fun hp => Bool.false_ne_true ((h c hc).symm.trans (hP c hp))

theorem Halts.takeWhile_eq_nil (h : Halts isChar x) : x.takeWhile isChar = [] := by
  cases x with
  | nil => rfl
  | cons c x => exact List.takeWhile_cons_of_neg (by simp [h c rfl])

theorem Halts.dropWhile_eq_self (h : Halts isChar x) : x.dropWhile isChar = x := by
  cases x with
  | nil => rfl
  | cons c x => exact List.dropWhile_cons_of_neg (by simp [h c rfl])

namespace IsName

variable (hn : IsName isChar n)
include hn

theorem takeWhile_append (hx : Halts isChar x) : (n ++ x).takeWhile isChar = n := by
  rw [List.takeWhile_append_of_pos hn.chars, hx.takeWhile_eq_nil, List.append_nil]

theorem dropWhile_append (hx : Halts isChar x) : (n ++ x).dropWhile isChar = x := by
  rw [List.dropWhile_append_of_pos hn.chars, hx.dropWhile_eq_self]

theorem head?_not_optional (hx : Halts Char.isLower x) (ws : List Word) :
    ∀ w ∈ ((n ++ x) :: ws).head?, w ∉ optionals := by
  intro w hw hm
  obtain rfl := Option.some.inj hw
  have hlower : ∀ w ∈ optionals, IsKeyword w := by decide
  cases x with
  | nil => exact hn.not_optional (by simpa using hm)
  | cons c x => simpa [hx c rfl] using (hlower _ hm).2 c (by simp)

end IsName

end

section
variable {n x : Word} (hn : IsName isNameChar n)
include hn

theorem IsName.isNameRun (hx : Halts isNameChar x) : nameRun (n ++ x) = n := hn.takeWhile_append hx

theorem IsName.name?_eq (hx : Halts isNameChar x) : name? (n ++ x) = some (.ofList n) := by
  rw [name?, hn.isNameRun hx, if_neg (by simpa using hn.ne_nil)]

theorem IsName.wholeName?_eq : wholeName? n = some (.ofList n) := by
  rw [wholeName?, if_pos (List.all_eq_true.mpr hn.chars)]
  simpa using hn.name?_eq (halts_nil _)

theorem IsName.not_optional_head (hx : Halts isNameChar x) (ws : List Word) :
    ∀ w ∈ ((n ++ x) :: ws).head?, w ∉ optionals :=
  hn.head?_not_optional (hx.of_imp fun _ => isNameChar_of_isLower) ws

end

/-! ## One name -/

section
variable {us : List Word} {n x : Word} {head : List Part}

theorem detectWords_oneName {make : String → Statement} (hf : ⟨head, oneName make⟩ ∈ forms)
    (hus : us ∈ spellings head) (hn : IsName isNameChar n) (hx : Halts isNameChar x) (ws : List Word) :
    detectWords (us ++ (n ++ x) :: ws) = some (make (.ofList n)) := by
  refine detectWords_spelled hf hus (hn.not_optional_head hx ws) ?_
  simp only [oneName, hn.name?_eq hx, Option.map_some]

theorem detectWords_object {k : String} (hk : k ∈ commentObjects) (hn : IsName isNameChar n) (hx : Halts isNameChar x)
    (ws : List Word) :
    detectWords ("comment".toList :: "on".toList :: k.toList :: (n ++ x) :: ws) =
      some (.commentOnObject k (.ofList n)) := by
  have hobject : ∀ k ∈ commentObjects, k.toList ∉ optionals := by decide
  have hus : ["comment".toList, "on".toList] ∈ spellings commentHead := by simp [commentHead, spellings]
  refine detectWords_spelled (f := ⟨commentHead, objectName⟩) (by simp [forms]) hus ?_ ?_
  · intro w hw
    obtain rfl := Option.some.inj hw
    exact hobject k hk
  · simp only [objectName, String.ofList_toList, List.contains_iff_mem.mpr hk, if_true, hn.name?_eq hx,
      Option.map_some]

theorem detectWords_called (hus : us ∈ spellings (commentHead ++ [.keyword ["function"]])) (hn : IsName isNameChar n)
    (hx : Halts isNameChar x) {ws : List Word} (hparen : (skipBlank x ws).1.head? = some '(') :
    detectWords (us ++ (n ++ x) :: ws) = some (.commentOnFunction (.ofList n)) := by
  refine detectWords_spelled (f := ⟨_, calledName⟩) (by simp [forms]) hus (hn.not_optional_head hx ws) ?_
  simp only [calledName, hn.dropWhile_append hx, hparen, if_true, hn.name?_eq hx, Option.map_some]

theorem detectWords_extensionName (hus : us ∈ spellings createExtensionHead) (hn : IsName isExtensionChar n)
    (hx : Halts isExtensionChar x) (ws : List Word) :
    detectWords (us ++ (n ++ x) :: ws) = some (.createExtension (.ofList n)) := by
  have hlower : ∀ c : Char, c.isLower = true → isExtensionChar c = true :=
    fun c hc => isExtensionChar_iff.mpr (.inl (isIdentChar_of_isLower hc))
  have hquote : (n ++ x).head? ≠ some '\x22' := by
    rw [List.head?_append_of_ne_nil _ hn.ne_nil]
    intro he
    exact absurd (hn.chars _ (List.mem_of_mem_head? he)) (by decide)
  refine detectWords_spelled (f := ⟨createExtensionHead, extensionName⟩) (by simp [forms]) hus
    (hn.head?_not_optional (hx.of_imp hlower) ws) ?_
  simp only [extensionName, if_neg hquote, hn.takeWhile_append hx]
  exact if_neg (by simpa using hn.ne_nil)

/-! ## The longest name before a column -/

theorem longestName?_eq_none {wanted : Word → Bool} {w : Word}
    (h : ∀ u r, w = u ++ r → u ≠ [] → (∀ c ∈ u, isNameChar c = true) → wanted r = false) :
    longestName? wanted w = none := by
  induction w with
  | nil => rfl
  | cons c w ih =>
    rw [longestName?]
    split
    · rename_i hc
      have hw : longestName? wanted w = none := by
        refine ih fun u r hw hu hchars => h (c :: u) r (by rw [hw]; rfl) (by simp) ?_
        exact List.forall_mem_cons.mpr ⟨hc, hchars⟩
      have hr : wanted w = false := h [c] w rfl (by simp) (by simpa using hc)
      rw [hw, hr]
      rfl
    · rfl

theorem longestName?_append_of_wanted {wanted : Word → Bool} (hn : IsName isNameChar n) (hwanted : wanted x = true)
    (h : ∀ u r, x = u ++ r → u ≠ [] → (∀ c ∈ u, isNameChar c = true) → wanted r = false) :
    longestName? wanted (n ++ x) = some n := by
  have hall : n.all isNameChar = true := List.all_eq_true.mpr hn.chars
  have hlongest : ∀ n : Word, n ≠ [] → (∀ c ∈ n, isNameChar c = true) →
      longestName? (fun r => wanted (r ++ x)) n = some n := by
    intro n
    induction n with
    | nil => exact fun hne => absurd rfl hne
    | cons c n ih =>
      intro _ hchars
      rw [List.forall_mem_cons] at hchars
      rw [longestName?, if_pos hchars.1]
      cases n with
      | nil => simp [longestName?, hwanted]
      | cons d n => rw [ih (by simp) hchars.2]
  rw [longestName?_append, longestName?_eq_none h, if_pos hall, Option.map_none, Option.none_or,
    hlongest n hn.ne_nil hn.chars]

theorem detectWords_column (hus : us ∈ spellings (commentHead ++ [.keyword ["column"]])) (hn : IsName isNameChar n)
    (hx : Halts Char.isLower x) {ws : List Word} (hdot : dotColumn x ws = true)
    (h : ∀ u r, x = u ++ r → u ≠ [] → (∀ c ∈ u, isNameChar c = true) → dotColumn r ws = false) :
    detectWords (us ++ (n ++ x) :: ws) = some (.commentOnColumn (.ofList n)) := by
  have hlongest : longestName? (dotColumn · ws) (n ++ x) = some n := longestName?_append_of_wanted hn hdot h
  refine detectWords_spelled (f := ⟨_, columnTable⟩) (by simp [forms]) hus (hn.head?_not_optional hx ws) ?_
  simp only [columnTable, hlongest, Option.map_some]

end

/-! ## Two names -/

/-- The first clause in words of which none but the keyword ends with it. -/
theorem head?_clauses {key : Word} {M : List Word} (hM : ∀ x ∈ M, endsWithWord key [] x = false) {w : Word}
    (hw : nameRun w ≠ []) (ws : List Word) {before x : Word} (hx : endsWithWord key before x = false) :
    (clauses key before x (M ++ key :: w :: ws)).head? = some (nameRun w) := by
  induction M generalizing before x with
  | nil =>
    have hkey : endsWithWord key [] key = true := endsWithWord_iff.mpr ⟨[], rfl, by simp⟩
    rw [List.nil_append, clauses_of_not hx, clauses, hkey, if_pos (by simpa using hw)]
    rfl
  | cons y M ih =>
    rw [List.forall_mem_cons] at hM
    rw [List.cons_append, clauses_of_not hx]
    exact ih hM.2 hM.1

section
variable {us : List Word} {n n' x : Word} {head : List Part} {make : String → String → Statement}
  (hus : us ∈ spellings head) (hn : IsName isNameChar n) (hn' : IsName isNameChar n') (hx : Halts isNameChar x)
include hus hn hn' hx

theorem detectWords_nameOnName {between : List Part} (hf : ⟨head, nameOnName between make⟩ ∈ forms)
    (hclear : Clear between) {vs : List Word} (hvs : vs ∈ spellings between) (ws : List Word) :
    detectWords (us ++ n :: on :: (vs ++ (n' ++ x) :: ws)) = some (make (.ofList n) (.ofList n')) := by
  obtain ⟨l, hl⟩ := List.head?_eq_some_iff.mp (head?_readings hclear hvs (hn'.not_optional_head hx ws))
  have hfirst : ∀ w ∈ (n :: on :: (vs ++ (n' ++ x) :: ws)).head?, w ∉ optionals := by
    simpa only [List.append_nil] using hn.not_optional_head (halts_nil _) (on :: (vs ++ (n' ++ x) :: ws))
  refine detectWords_spelled hf hus hfirst ?_
  simp only [nameOnName, if_true, hn.wholeName?_eq, Option.bind_some, hl, List.findSome?_cons, oneName, hn'.name?_eq hx,
    Option.map_some]

theorem detectWords_nameThenOn (hf : ⟨head, nameThenOn make⟩ ∈ forms) {M : List Word}
    (hM : ∀ w ∈ M, endsWithWord on [] w = false) (ws : List Word) :
    detectWords (us ++ n :: (M ++ on :: (n' ++ x) :: ws)) = some (make (.ofList n) (.ofList n')) := by
  have hfirst : ∀ w ∈ (n :: (M ++ on :: (n' ++ x) :: ws)).head?, w ∉ optionals := by
    simpa only [List.append_nil] using hn.not_optional_head (halts_nil _) (M ++ on :: (n' ++ x) :: ws)
  have hrun : nameRun n = n := by simpa using hn.isNameRun (halts_nil _)
  have hrest : n.dropWhile isNameChar = [] := List.dropWhile_eq_nil_iff.mpr hn.chars
  have hsecond : nameRun (n' ++ x) ≠ [] := by
    rw [hn'.isNameRun hx]
    exact hn'.ne_nil
  -- the name ends its word, so the clause is looked for in the words behind it
  have hclause := head?_clauses hM hsecond ws (endsWithWord_nil isKeyword_on n)
  have hread := nameThenOn_of_name make (by rw [hrun]; exact hn.ne_nil) (M ++ on :: (n' ++ x) :: ws) hrest
  rw [hclause, hn'.isNameRun hx] at hread
  exact detectWords_spelled hf hus hfirst hread

end

/-! ## Grants -/

theorem detectWords_grantOrRevoke {k : String} (hk : k ∈ ["grant", "revoke"]) {x : Word} (hx : Halts isWordChar x)
    (ws : List Word) : detectWords ((k.toList ++ x) :: ws) = some .grantRevoke := by
  have hlead : leadWord ((k.toList ++ x) :: ws) = k.toList := by
    rw [leadWord, List.headD_cons, List.takeWhile_append_of_pos (isKeyword_grantOrRevoke k hk).isWordChar,
      hx.takeWhile_eq_nil, List.append_nil]
  refine detectWords_of_read (f := ⟨[], grantOrRevoke⟩) (by simp [forms]) ?_
  simp only [Form.read, readings, List.findSome?_singleton, grantOrRevoke, hlead, String.ofList_toList,
    List.contains_iff_mem.mpr hk, if_true]

end MigrationLint.Sql
