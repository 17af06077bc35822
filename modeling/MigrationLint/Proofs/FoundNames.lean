import MigrationLint.Proofs.Denials
import MigrationLint.Proofs.ForeignKeys
import MigrationLint.Proofs.Spellings

/-!
# Names as they stand in the text

A form reads words, and each name it takes is a piece of the text behind a blank. Of two names the second stands behind
the first, with the whole word `on` between them (`names_of_detect`).
-/

namespace MigrationLint.Sql

open Text

/-- A text of characters of a kind, at least one. -/
structure IsRun (isChar : Char → Bool) (n : String) : Prop where
  ne_empty : n ≠ ""
  chars : ∀ c ∈ n.toList, isChar c = true

def EndsBlank (s : List Char) : Prop := ∃ c ∈ s.getLast?, isBlank c = true

def NameIn (s : List Char) (n : String) : Prop :=
  IsRun isNameChar n ∧ ∃ a b, s = a ++ (n.toList ++ b) ∧ EndsBlank a

/-- A double quote may be before an extension, too. -/
def ExtensionIn (s : List Char) (x : String) : Prop :=
  IsRun isExtensionChar x ∧
    ∃ a b, s = a ++ (x.toList ++ b) ∧ (EndsBlank a ∨ a.getLast? = some '\x22')

/-- Between the names is the word `on`, no part of a longer word, with a blank behind it. -/
def NamesIn (s : List Char) (first second : String) : Prop :=
  IsRun isNameChar first ∧ IsRun isNameChar second ∧
    ∃ a m g b, s = a ++ (first.toList ++ (m ++ (on ++ (g ++ (second.toList ++ b))))) ∧ EndsBlank a ∧ EndsBlank g ∧
      (∀ c ∈ (a ++ (first.toList ++ m)).getLast?, isWordChar c = false) ∧ ∃ c ∈ g.head?, isBlank c = true

/-- Where the names of a statement stand in a text. -/
def Statement.NamedIn (s : List Char) : Statement → Prop
  | table name | view name | dropIndex name | sequence name | function name | type name
  | commentOnColumn name | commentOnFunction name => NameIn s name
  | dropTrigger first second | createIndex first second | createTrigger first second
  | policy first second => NamesIn s first second
  | commentOnObject object name => NameIn s object ∧ NameIn s name
  | createExtension extension => ExtensionIn s extension
  | grantRevoke => True

/-! ## Words at their places -/

theorem IsGap.endsBlank {g : List Char} (h : IsGap g) : EndsBlank g :=
  ⟨_, List.getLast?_eq_some_getLast h.1, h.2 _ (List.getLast_mem h.1)⟩

theorem EndsBlank.append (s : List Char) {t : List Char} (h : EndsBlank t) : EndsBlank (s ++ t) := by
  obtain ⟨c, hc, hb⟩ := h
  exact ⟨c, by rw [List.getLast?_append, Option.mem_def.mp hc]; rfl, hb⟩

theorem EndsBlank.not_word {s : List Char} (h : EndsBlank s) : ∀ c ∈ s.getLast?, isWordChar c = false := by
  obtain ⟨d, hd, hb⟩ := h
  intro c hc
  obtain rfl := Option.some.inj (hd.symm.trans hc)
  exact isWordChar_of_isBlank hb

theorem exists_gap {t w : List Char} {ws : List Word} (h : words t = w :: ws) (hws : ws ≠ []) :
    ∃ g t', t = w ++ (g ++ t') ∧ IsGap g ∧ words t' = ws := by
  rcases words_cases t with ⟨-, ht⟩ | ⟨v, g, t', rfl, -, hg, -, ht⟩
  · rw [h] at ht
    exact absurd (List.cons.inj ht).2 hws
  · rw [h] at ht
    obtain ⟨rfl, hrest⟩ := List.cons.inj ht
    exact ⟨g, t', rfl, hg, hrest.symm⟩

/-- Some words further on the text goes on behind a blank, if it does so here. -/
theorem exists_behind {t : List Char} {us r : List Word} (h : words t = us ++ r) (hr : r ≠ []) :
    ∃ a t', t = a ++ t' ∧ (∀ s, EndsBlank s → EndsBlank (s ++ a)) ∧ words t' = r := by
  induction us generalizing t with
  | nil => exact ⟨[], t, rfl, fun s hs => by rwa [List.append_nil], h⟩
  | cons u us ih =>
    obtain ⟨g, t', rfl, hg, hrest⟩ := exists_gap h (by simp [hr])
    obtain ⟨a, t'', rfl, ha, hw⟩ := ih hrest
    refine ⟨u ++ (g ++ a), t'', by simp, fun s _ => ?_, hw⟩
    rw [← List.append_assoc, ← List.append_assoc]
    exact ha _ (hg.endsBlank.append _)

theorem isRun_ofList {isChar : Char → Bool} {n : List Char} (hne : n ≠ []) (hn : ∀ c ∈ n, isChar c = true) :
    IsRun isChar (.ofList n) := by
  refine ⟨fun he => hne ?_, by rwa [String.toList_ofList]⟩
  rw [← String.toList_inj, String.toList_ofList] at he
  exact he

theorem isRun_nameRun {w : Word} (h : nameRun w ≠ []) : IsRun isNameChar (.ofList (nameRun w)) :=
  isRun_ofList h fun _ hc => List.mem_takeWhile_imp hc

theorem name?_of_words {t w : List Char} {ws : List Word} {n : String} (h : words t = w :: ws) (hn : name? w = some n) :
    IsRun isNameChar n ∧ n.toList = nameRun t := by
  unfold name? at hn
  rw [Option.ite_none_left_eq_some, List.isEmpty_iff] at hn
  obtain ⟨hne, hn⟩ := hn
  obtain rfl := Option.some.inj hn
  exact ⟨isRun_nameRun hne, by rw [String.toList_ofList, nameRun_of_words h]⟩

/-! ## Tails -/

/-- The names that a tail takes from the text behind a blank stand there. -/
def Places (tail : List Word → Option Statement) : Prop :=
  ∀ a t st, EndsBlank a → tail (words t) = some st → st.NamedIn (a ++ t)

theorem nameIn_of_words {a t w : List Char} {ws : List Word} {n : String} (ha : EndsBlank a)
    (h : words t = w :: ws) (hn : name? w = some n) : NameIn (a ++ t) n := by
  obtain ⟨hrun, hlist⟩ := name?_of_words h hn
  exact ⟨hrun, a, t.dropWhile isNameChar, by rw [hlist, nameRun_append_rest], ha⟩

theorem exists_of_oneName {make : String → Statement} {r : List Word} {st : Statement} (h : oneName make r = some st) :
    ∃ w ws n, r = w :: ws ∧ name? w = some n ∧ st = make n := by
  unfold oneName at h
  split at h
  · rename_i w ws
    obtain ⟨n, hn, rfl⟩ := Option.map_eq_some_iff.mp h
    exact ⟨w, ws, n, rfl, hn, rfl⟩
  · cases h

theorem places_oneName {make : String → Statement} (hm : ∀ s n, NameIn s n → (make n).NamedIn s) :
    Places (oneName make) := by
  intro a t st ha h
  obtain ⟨w, ws, n, hw, hn, rfl⟩ := exists_of_oneName h
  exact hm _ n (nameIn_of_words ha hw hn)

theorem places_objectName : Places objectName := by
  intro a t st ha h
  unfold objectName at h
  split at h
  · rename_i k w ws hw
    rw [Option.ite_none_right_eq_some, List.contains_iff_mem] at h
    obtain ⟨hk, h⟩ := h
    obtain ⟨n, hn, rfl⟩ := Option.map_eq_some_iff.mp h
    have hkey := isKeyword_commentObjects _ hk
    rw [String.toList_ofList] at hkey
    obtain ⟨g, t', rfl, hg, hw'⟩ := exists_gap hw (by simp)
    constructor
    · refine ⟨isRun_ofList hkey.1 fun c hc => isNameChar_of_isLower (hkey.2 c hc), a, g ++ t', ?_, ha⟩
      rw [String.toList_ofList]
    · rw [← List.append_assoc, ← List.append_assoc]
      exact nameIn_of_words (hg.endsBlank.append _) hw' hn
  · cases h

theorem places_extensionName : Places extensionName := by
  intro a t st ha h
  unfold extensionName at h
  split at h
  · rename_i w ws hw
    rw [Option.ite_none_left_eq_some, List.isEmpty_iff] at h
    obtain ⟨hne, h⟩ := h
    obtain rfl := Option.some.inj h
    obtain ⟨⟨b, rfl⟩, -⟩ := prefix_of_words hw
    refine ⟨isRun_ofList hne fun c hc => List.mem_takeWhile_imp hc, ?_⟩
    rw [String.toList_ofList]
    split
    · rename_i hquote
      obtain ⟨v, rfl⟩ := List.head?_eq_some_iff.mp hquote
      refine ⟨a ++ ['\x22'], v.dropWhile isExtensionChar ++ b, ?_, .inr (by simp)⟩
      rw [List.tail_cons, ← List.append_assoc (v.takeWhile _), List.takeWhile_append_dropWhile]
      simp
    · refine ⟨a, w.dropWhile isExtensionChar ++ b, ?_, .inl ha⟩
      rw [← List.append_assoc (w.takeWhile _), List.takeWhile_append_dropWhile]
  · cases h

theorem longestName?_spec {wanted : Word → Bool} {w n : Word} (h : longestName? wanted w = some n) :
    n ≠ [] ∧ (∀ c ∈ n, isNameChar c = true) ∧ n <+: w := by
  induction w generalizing n with
  | nil => cases h
  | cons c w ih =>
    rw [longestName?, Option.ite_none_right_eq_some] at h
    obtain ⟨hc, h⟩ := h
    split at h
    · rename_i m hm
      obtain rfl := Option.some.inj h
      obtain ⟨-, hchars, hpre⟩ := ih hm
      exact ⟨by simp, List.forall_mem_cons.mpr ⟨hc, hchars⟩, List.cons_prefix_cons.mpr ⟨rfl, hpre⟩⟩
    · rw [Option.ite_none_right_eq_some] at h
      obtain rfl := Option.some.inj h.2
      exact ⟨by simp, by simpa using hc, List.cons_prefix_cons.mpr ⟨rfl, List.nil_prefix⟩⟩

theorem places_columnTable : Places columnTable := by
  intro a t st ha h
  unfold columnTable at h
  split at h
  · rename_i w ws hw
    obtain ⟨n, hn, rfl⟩ := Option.map_eq_some_iff.mp h
    obtain ⟨hne, hchars, hpre⟩ := longestName?_spec hn
    obtain ⟨b, hb⟩ := hpre.trans (prefix_of_words hw).1
    exact ⟨isRun_ofList hne hchars, a, b, by rw [String.toList_ofList, hb], ha⟩
  · cases h

theorem places_calledName : Places calledName := by
  intro a t st ha h
  unfold calledName at h
  split at h
  · rename_i w ws hw
    rw [Option.ite_none_right_eq_some] at h
    obtain ⟨n, hn, rfl⟩ := Option.map_eq_some_iff.mp h.2
    exact nameIn_of_words ha hw hn
  · cases h

/-! ## Two names -/

theorem places_nameOnName {between : List Part} {make : String → String → Statement}
    (hm : ∀ s n n', NamesIn s n n' → (make n n').NamedIn s) : Places (nameOnName between make) := by
  intro a t st ha h
  unfold nameOnName at h
  split at h
  · rename_i w k ws hw
    rw [Option.ite_none_right_eq_some] at h
    obtain ⟨rfl, hfirst⟩ := h
    obtain ⟨n, hn, hsecond⟩ := Option.bind_eq_some_iff.mp hfirst
    unfold wholeName? at hn
    rw [Option.ite_none_right_eq_some, List.all_eq_true] at hn
    obtain ⟨r, hr, hname⟩ := List.exists_of_findSome?_eq_some hsecond
    obtain ⟨us, -, rfl⟩ := mem_readings.mp hr
    obtain ⟨w', ws', n', rfl, hn', rfl⟩ := exists_of_oneName hname
    obtain ⟨hrun, hlist⟩ := name?_of_words hw hn.2
    have hwhole : n.toList = w := by
      rw [hlist, ← nameRun_of_words hw, nameRun, List.takeWhile_eq_self_iff.mpr hn.1]
    -- the words are taken off one by one, with the blanks behind each
    obtain ⟨g, t₁, rfl, hg, hw₁⟩ := exists_gap hw (by simp)
    obtain ⟨g', t₂, rfl, hg', hw₂⟩ := exists_gap hw₁ (by simp)
    obtain ⟨b, t₃, rfl, hb, hw₃⟩ := exists_behind hw₂ (by simp)
    obtain ⟨hrun', hlist'⟩ := name?_of_words hw₃ hn'
    refine hm _ n n' ⟨hrun, hrun', a, g, g' ++ b, t₃.dropWhile isNameChar, ?_, ha, hb g' hg'.endsBlank, ?_, ?_⟩
    · rw [hwhole, hlist', nameRun_append_rest]
      simp
    · exact ((hg.endsBlank.append _).append a).not_word
    · obtain ⟨c, hc, hblank⟩ := hg'.starts
      exact ⟨c, by rw [List.head?_append, Option.mem_def.mp hc]; rfl, hblank⟩
  · cases h

theorem namesIn_of_clause {a t w : List Char} {ws : List Word} {n' : Word} (ha : EndsBlank a)
    (hw : words t = w :: ws) (hn : nameRun w ≠ [])
    (h : (clauses on [] (w.dropWhile isNameChar) ws).head? = some n') :
    NamesIn (a ++ t) (.ofList (nameRun w)) (.ofList n') := by
  have hs : a ++ t = (a ++ nameRun t) ++ t.dropWhile isNameChar := by
    rw [List.append_assoc, nameRun_append_rest]
  obtain ⟨cs, hreads, hnames⟩ := exists_readsFrom isKeyword_on hs (words_behind_name hw) (.inr head_dropWhile)
  rw [← hnames, List.head?_map] at h
  obtain ⟨c, hc, rfl⟩ := Option.map_eq_some_iff.mp h
  obtain ⟨b, hb, hx⟩ := c.exists_of_le hs (hreads.le_start c (List.mem_of_mem_head? hc))
  refine ⟨isRun_nameRun hn, isRun_ofList c.ne_nil c.chars, a, b, c.gap, c.after, ?_, ha, c.isGap.endsBlank, ?_,
    c.isGap.starts⟩
  · rw [String.toList_ofList, String.toList_ofList, ← hx, nameRun_of_words hw, nameRun_append_rest]
  · rw [String.toList_ofList, nameRun_of_words hw, ← List.append_assoc, ← hb]
    exact c.boundary

/-- The keyword is at the end of the word that the first name starts. -/
theorem namesIn_of_suffix {a t v : List Char} {ws : List Word} {n' : String} (ha : EndsBlank a)
    (hw : words t = (v ++ on) :: ws) (hne : v ≠ []) (hv : ∀ c ∈ v, isNameChar c = true)
    (hlast : ∀ c ∈ v.getLast?, isWordChar c = false) (hn' : ws.head?.bind name? = some n') :
    NamesIn (a ++ t) (.ofList v) n' := by
  obtain ⟨w', hhead, hname⟩ := Option.bind_eq_some_iff.mp hn'
  obtain ⟨ws', rfl⟩ := List.head?_eq_some_iff.mp hhead
  obtain ⟨g, t', rfl, hg, hw'⟩ := exists_gap hw (by simp)
  obtain ⟨hrun, hlist⟩ := name?_of_words hw' hname
  refine ⟨isRun_ofList hne hv, hrun, a, [], g, t'.dropWhile isNameChar, ?_, ha, hg.endsBlank, ?_, hg.starts⟩
  · rw [String.toList_ofList, hlist, nameRun_append_rest]
    simp
  · rw [String.toList_ofList, List.append_nil, List.getLast?_append_of_ne_nil _ hne]
    exact hlast

theorem places_nameThenOn {make : String → String → Statement}
    (hm : ∀ s n n', NamesIn s n n' → (make n n').NamedIn s) : Places (nameThenOn make) := by
  intro a t st ha h
  obtain ⟨ws, hw⟩ := words_head t
  generalize (t.takeWhile fun c => !isBlank c) = w at hw
  rw [hw] at h
  by_cases hn : nameRun w = []
  · simp [nameThenOn, hn] at h
  have hclause : ∀ n' : Word, (clauses on [] (w.dropWhile isNameChar) ws).head? = some n' →
      (make (.ofList (nameRun w)) (.ofList n')).NamedIn (a ++ t) :=
    fun n' hn' => hm _ _ _ (namesIn_of_clause ha hw hn hn')
  by_cases hrest : w.dropWhile isNameChar = []
  · have hrun : nameRun w = w := by simpa [hrest] using nameRun_append_rest w
    have hnil : clauses on w [] ws = clauses on [] (w.dropWhile isNameChar) ws := by
      rw [hrest]
      cases ws with
      | nil => rfl
      | cons t ws =>
        rw [clauses_of_not (endsWithWord_nil isKeyword_on _), clauses_of_not (endsWithWord_nil isKeyword_on _)]
    rw [nameThenOn_of_name make hn ws hrest, hnil, Option.or_eq_some_iff] at h
    rcases h with h | ⟨-, h⟩
    · obtain ⟨n', hn', rfl⟩ := Option.map_eq_some_iff.mp h
      rw [hrun] at hclause
      exact hclause n' hn'
    · rw [Option.ite_none_right_eq_some, Bool.and_eq_true, endsWithWord_iff] at h
      obtain ⟨⟨⟨v, rfl, hlast⟩, hne⟩, h⟩ := h
      obtain ⟨n', hn', rfl⟩ := Option.map_eq_some_iff.mp h
      have htake : (v ++ on).take ((v ++ on).length - on.length) = v := by simp
      rw [htake] at hne ⊢
      have hv : ∀ c ∈ v, isNameChar c = true :=
        fun c hc => List.takeWhile_eq_self_iff.mp hrun c (List.mem_append_left _ hc)
      exact hm _ _ _ (namesIn_of_suffix ha hw (by simpa using hne) hv hlast hn')
  · rw [nameThenOn_of_rest make hn ws hrest, ← clauses_rest isKeyword_on hrest [] ws] at h
    obtain ⟨n', hn', rfl⟩ := Option.map_eq_some_iff.mp h
    exact hclause n' hn'

/-! ## All forms -/

theorem places_grantOrRevoke : Places grantOrRevoke := by
  intro a t st _ h
  obtain ⟨-, rfl⟩ := grantOrRevoke_iff.mp h
  trivial

theorem places_forms : ∀ f ∈ forms, Places f.tail := by
  simp only [forms, List.forall_mem_cons]
  refine ⟨places_oneName ?_, places_nameOnName ?_, places_oneName ?_, places_nameOnName ?_, places_oneName ?_,
    places_oneName ?_, places_oneName ?_, places_oneName ?_, places_nameThenOn ?_, places_objectName,
    places_extensionName, places_columnTable, places_calledName, places_grantOrRevoke, places_nameThenOn ?_, by simp⟩
  all_goals simp [Statement.NamedIn]

theorem tail_nil : ∀ f ∈ forms, f.tail [] = none := by decide +kernel

/-- A form that takes names has words before them. -/
theorem head_or_grant : ∀ f ∈ forms, f = ⟨[], grantOrRevoke⟩ ∨ [] ∉ spellings f.head := by
  simp only [forms, List.forall_mem_cons]
  refine ⟨.inr ?_, .inr ?_, .inr ?_, .inr ?_, .inr ?_, .inr ?_, .inr ?_, .inr ?_, .inr ?_, .inr ?_, .inr ?_, .inr ?_,
    .inr ?_, .inl trivial, .inr ?_, by simp⟩
  all_goals decide +kernel

/-- **Every name that is found is a piece of the text.** -/
theorem names_of_detect {s : List Char} {st : Statement} (h : detect s = some st) : st.NamedIn s := by
  obtain ⟨f, hf, hread⟩ := List.exists_of_findSome?_eq_some h
  obtain ⟨us, hus, r, hw, ht⟩ := exists_of_read hread
  rcases head_or_grant f hf with rfl | hhead
  · obtain ⟨-, rfl⟩ := grantOrRevoke_iff.mp ht
    trivial
  have hr : r ≠ [] := by
    intro hr
    rw [hr, tail_nil f hf] at ht
    cases ht
  obtain ⟨u, us, rfl⟩ := List.exists_cons_of_ne_nil (ne_of_mem_of_not_mem hus hhead)
  obtain ⟨g, t, rfl, hg, ht'⟩ := exists_gap hw.symm (by simp [hr])
  obtain ⟨a, t, rfl, ha, hw'⟩ := exists_behind ht' hr
  have hplace := places_forms f hf (u ++ (g ++ a)) t st ?_ (hw'.symm ▸ ht)
  · simpa using hplace
  · rw [← List.append_assoc]
    exact ha _ (hg.endsBlank.append u)

theorem names_of_detect_on :
    detect "create or replace trigger cb.on public.cb_a".toList = some (.createTrigger "cb." "public.cb_a") ∧
      Statement.NamedIn "create or replace trigger cb.on public.cb_a".toList (.createTrigger "cb." "public.cb_a") := by
  have h : detect "create or replace trigger cb.on public.cb_a".toList =
      some (.createTrigger "cb." "public.cb_a") := by decide +kernel
  exact ⟨h, names_of_detect h⟩

end MigrationLint.Sql
