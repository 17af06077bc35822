import MigrationLint.Proofs.Ends
import MigrationLint.Proofs.Trimming

/-!
# Items between separators

A list of items is written with separators between its pieces, blanks around each item, and any number of blank
pieces. Cutting and trimming such a text gives the items back (`Padded.trimmed`), and the statements of a text are
the one list of which the text is such a writing (`statements_joined`).
-/

namespace MigrationLint.Text

/-! ## Cutting and joining -/

theorem pieces_eq_splitOnP (cut : Char → Bool) (s : List Char) : pieces cut s = s.splitOnP cut := by
  induction s with
  | nil => rfl
  | cons c s ih => rw [pieces, ih, List.splitOnP_cons_eq_if_modifyHead]

theorem intercalate_pieces (c : Char) (s : List Char) : [c].intercalate (pieces (· == c) s) = s := by
  rw [pieces_eq_splitOnP, ← List.splitOn_eq_splitOnP, List.intercalate_splitOn]

theorem pieces_intercalate {c : Char} {ps : List (List Char)} (hne : ps ≠ []) (h : ∀ p ∈ ps, c ∉ p) :
    pieces (· == c) ([c].intercalate ps) = ps := by
  rw [pieces_eq_splitOnP, ← List.splitOn_eq_splitOnP, List.splitOn_intercalate c h hne]

theorem flatten_pieces (cut : Char → Bool) (s : List Char) :
    (pieces cut s).flatten = s.filter fun c => !cut c := by
  induction s with
  | nil => rfl
  | cons c s ih =>
    obtain ⟨w, ws, hw⟩ := List.exists_cons_of_ne_nil (pieces_ne_nil cut s)
    rw [hw] at ih
    cases hc : cut c <;> simp [pieces, hc, hw, ← ih]

/-! ## Items with blanks around them -/

/-- What is not empty and has no blank at an end. -/
structure IsTrimmed (t : List Char) : Prop where
  ne_nil : t ≠ []
  first : ∀ c ∈ t.head?, isBlank c = false
  last : ∀ c ∈ t.getLast?, isBlank c = false

instance (t : List Char) : Decidable (IsTrimmed t) :=
  decidable_of_iff (t ≠ [] ∧ t.head?.toList.all (!isBlank ·) ∧ t.getLast?.toList.all (!isBlank ·))
    ⟨fun h => ⟨h.1, by simpa using h.2.1, by simpa using h.2.2⟩,
      fun h => ⟨h.ne_nil, by simpa using h.first, by simpa using h.last⟩⟩

theorem IsTrimmed.trim_eq {t front back : List Char} (h : IsTrimmed t) (hfront : IsBlankText front)
    (hback : IsBlankText back) : trim (front ++ t ++ back) = t :=
  (Trims.eq_trim ⟨⟨front, back, hfront, hback, rfl⟩, h.first, h.last⟩).symm

theorem isTrimmed_trim {s : List Char} (h : trim s ≠ []) : IsTrimmed (trim s) :=
  ⟨h, (trims_trim s).first, (trims_trim s).last⟩

/-- The pieces are the items with blanks around them, and any number of blank pieces. -/
inductive Padded : List (List Char) → List (List Char) → Prop
  | nil : Padded [] []
  | blank {g : List Char} {items ps : List (List Char)} : IsBlankText g → Padded items ps → Padded items (g :: ps)
  | item {a t b : List Char} {items ps : List (List Char)} : IsBlankText a → IsBlankText b → Padded items ps →
      Padded (t :: items) ((a ++ t ++ b) :: ps)

namespace Padded

variable {items ps : List (List Char)}

theorem trimmed (h : Padded items ps) (hitems : ∀ t ∈ items, IsTrimmed t) :
    (ps.map trim).filter (fun t => !t.isEmpty) = items := by
  induction h with
  | nil => rfl
  | blank hg _ ih =>
    have hempty : trim _ = [] := trim_eq_nil_iff.mpr hg
    simpa [hempty] using ih hitems
  | item hfront hback _ ih =>
    rw [List.forall_mem_cons] at hitems
    rw [List.map_cons, hitems.1.trim_eq hfront hback, List.filter_cons_of_pos (by simpa using hitems.1.ne_nil),
      ih hitems.2]

theorem of_trim (ps : List (List Char)) : Padded ((ps.map trim).filter fun t => !t.isEmpty) ps := by
  induction ps with
  | nil => exact .nil
  | cons p ps ih =>
    by_cases hp : trim p = []
    · simpa [hp] using ih.blank (trim_eq_nil_iff.mp hp)
    · obtain ⟨front, back, hfront, hback, he⟩ := (trims_trim p).ends
      have := ih.item (t := trim p) hfront hback
      rw [← he] at this
      simpa [hp] using this

theorem not_mem {c : Char} (h : Padded items ps) (hc : isBlank c = false) (hitems : ∀ t ∈ items, c ∉ t) :
    ∀ p ∈ ps, c ∉ p := by
  have hblank : ∀ g, IsBlankText g → c ∉ g := by
    intro g hg hm
    simp [hg c hm] at hc
  induction h with
  | nil => simp
  | blank hg _ ih => exact List.forall_mem_cons.mpr ⟨hblank _ hg, ih hitems⟩
  | item hfront hback _ ih =>
    rw [List.forall_mem_cons] at hitems
    refine List.forall_mem_cons.mpr ⟨?_, ih hitems.2⟩
    simp [hblank _ hfront, hblank _ hback, hitems.1]

end Padded

/-- The text holds the items between separators. -/
def JoinedBy (c : Char) (items : List (List Char)) (s : List Char) : Prop :=
  ∃ ps, Padded items ps ∧ s = [c].intercalate ps

theorem JoinedBy.pieces {c : Char} {items : List (List Char)} {s : List Char} (h : JoinedBy c items s)
    (hc : isBlank c = false) (hitems : ∀ t ∈ items, c ∉ t) : Padded items (pieces (· == c) s) := by
  obtain ⟨ps, hps, rfl⟩ := h
  by_cases hne : ps = []
  · subst hne
    cases hps
    exact .blank (by simp [IsBlankText]) .nil
  · rwa [pieces_intercalate hne (hps.not_mem hc hitems)]

end MigrationLint.Text

namespace MigrationLint.Sql

open Text

/-- What has no semicolon in it and is trimmed. -/
structure IsStatement (t : List Char) : Prop extends IsTrimmed t where
  no_semicolon : ';' ∉ t

instance (t : List Char) : Decidable (IsStatement t) :=
  decidable_of_iff (IsTrimmed t ∧ ';' ∉ t) ⟨fun h => ⟨h.1, h.2⟩, fun h => ⟨h.toIsTrimmed, h.no_semicolon⟩⟩

theorem isStatement_of_mem {s t : List Char} (h : t ∈ statements s) : IsStatement t := by
  obtain ⟨hm, hne⟩ := List.mem_filter.mp h
  obtain ⟨x, -, rfl⟩ := List.mem_map.mp hm
  exact ⟨isTrimmed_trim (by simpa using hne), mem_statements h⟩

theorem joins_statements (s : List Char) : JoinedBy ';' (statements s) s :=
  ⟨_, Padded.of_trim _, (intercalate_pieces ';' s).symm⟩

theorem statements_of_joins {ts : List (List Char)} {s : List Char} (hts : ∀ t ∈ ts, IsStatement t)
    (h : JoinedBy ';' ts s) : statements s = ts :=
  (h.pieces (by decide) fun t ht => (hts t ht).no_semicolon).trimmed fun t ht => (hts t ht).toIsTrimmed

theorem filter_trim (s : List Char) : (trim s).filter (fun c => !isBlank c) = s.filter fun c => !isBlank c := by
  obtain ⟨front, back, hfront, hback, he⟩ := (trims_trim s).ends
  have hblank : ∀ g, IsBlankText g → g.filter (fun c => !isBlank c) = [] := by
    intro g hg
    rw [List.filter_eq_nil_iff]
    intro c hc
    simp [hg c hc]
  conv_rhs => rw [he]
  rw [List.filter_append, List.filter_append, hblank _ hfront, hblank _ hback, List.nil_append, List.append_nil]

theorem filter_statements (s : List Char) :
    (statements s).flatten.filter (fun c => !isBlank c) = s.filter fun c => !isBlank c && c != ';' := by
  have hpieces : ∀ ps : List (List Char), ((ps.map trim).filter fun t => !t.isEmpty).flatten.filter
      (fun c => !isBlank c) = ps.flatten.filter fun c => !isBlank c := by
    intro ps
    induction ps with
    | nil => rfl
    | cons p ps ih =>
      rw [List.flatten_cons, List.filter_append, ← ih, ← filter_trim p]
      by_cases hp : trim p = [] <;> simp [hp]
  rw [statements, hpieces, flatten_pieces, List.filter_filter]
  rfl

/-- **Splitting undoes joining.** What a text is split into are statements, and the text joins them; whatever text
joins a list of statements is split into that list. Splitting goes over a semicolon, and leaves out semicolons and
blanks alone. -/
theorem statements_joined :
    (∀ s, (∀ t ∈ statements s, IsStatement t) ∧ JoinedBy ';' (statements s) s) ∧
      (∀ ts s, (∀ t ∈ ts, IsStatement t) → JoinedBy ';' ts s → statements s = ts) ∧
      (∀ a b, statements (a ++ ';' :: b) = statements a ++ statements b) ∧
      ∀ s, (statements s).flatten.filter (fun c => !isBlank c) = s.filter fun c => !isBlank c && c != ';' :=
  ⟨fun s => ⟨fun _ => isStatement_of_mem, joins_statements s⟩, fun _ _ => statements_of_joins, statements_append,
    filter_statements⟩

/-- Blank pieces at both ends and between the statements, with blanks beyond ASCII. -/
theorem statements_joined_blanks :
    let ts := ["drop table cb_a".toList, "select 1".toList]
    let s := "\u00a0;\n drop table cb_a\u2003;;\t; select 1;".toList
    (∀ t ∈ ts, IsStatement t) ∧ JoinedBy ';' ts s ∧ statements s = ts := by
  intro ts s
  have hts : ∀ t ∈ ts, IsStatement t := by decide
  have hlast : Padded ["select 1".toList] [" select 1".toList, []] :=
    .item (a := [' ']) (b := []) (by decide) (by decide) (.blank (by decide) .nil)
  have hjoins : JoinedBy ';' ts s :=
    ⟨["\u00a0".toList, "\n drop table cb_a\u2003".toList, [], "\t".toList, " select 1".toList, []],
      .blank (by decide) (.item (a := "\n ".toList) (b := "\u2003".toList) (by decide) (by decide)
        (.blank (by decide) (.blank (by decide) hlast))), by decide⟩
  exact ⟨hts, hjoins, statements_joined.2.1 ts s hts hjoins⟩

end MigrationLint.Sql
