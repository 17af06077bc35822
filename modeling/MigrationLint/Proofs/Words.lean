import Mathlib.Data.List.DropRight
import MigrationLint.Proofs.Characters
import MigrationLint.Proofs.Verdict

/-!
# Words of a statement

A check sees a statement only through its nonempty words (`checkStatement_trim`): blanks around it and
the length of the blanks between two words do not matter. At the seam of two texts either nothing
happens to the words or the last word of the first text and the first word of the second become one
(`blocks_seam`).
-/

namespace MigrationLint.Text

/-- The nonempty words of a text. -/
def blocks (s : List Char) : List (List Char) := (words s).filter fun w => !w.isEmpty

/-! ## Words and blanks -/

theorem words_blank {c : Char} (h : isBlank c = true) (s : List Char) :
    words (c :: s) = if s.head?.any isBlank then words s else [] :: words s := by
  rw [words, if_pos h]

theorem words_cons {c : Char} (h : isBlank c = false) (s : List Char) :
    words (c :: s) = (words s).modifyHead (c :: ·) := by
  rw [words, if_neg (by simp [h])]

theorem words_head (s : List Char) : ∃ ws, words s = (s.takeWhile fun c => !isBlank c) :: ws := by
  induction s with
  | nil => exact ⟨[], rfl⟩
  | cons c s ih =>
    obtain ⟨ws, hw⟩ := ih
    cases h : isBlank c with
    | false => exact ⟨ws, by simp [words_cons h, hw, h]⟩
    | true =>
      rw [words_blank h]
      split
      · rename_i hs
        obtain ⟨d, s, rfl⟩ : ∃ d t, s = d :: t := by
          cases s with
          | nil => simp at hs
          | cons d t => exact ⟨d, t, rfl⟩
        have hd : isBlank d = true := by simpa using hs
        exact ⟨ws, by simp [hw, h, hd]⟩
      · exact ⟨words s, by simp [h]⟩

theorem blocks_nil : blocks [] = [] := rfl

theorem blocks_blank {c : Char} (h : isBlank c = true) (s : List Char) : blocks (c :: s) = blocks s := by
  rw [blocks, words_blank h]
  split <;> simp [blocks]

theorem blocks_head {c : Char} (hc : isBlank c = false) (s : List Char) : ∃ w bs, blocks (c :: s) = (c :: w) :: bs := by
  obtain ⟨ws, hw⟩ := words_head s
  refine ⟨s.takeWhile fun c => !isBlank c, ws.filter fun w => !w.isEmpty, ?_⟩
  rw [blocks, words_cons hc, hw]
  simp

theorem blocks_grow {c d : Char} (hc : isBlank c = false) (hd : isBlank d = false) (s : List Char) :
    ∃ w bs, blocks (d :: s) = (d :: w) :: bs ∧ blocks (c :: d :: s) = (c :: d :: w) :: bs := by
  obtain ⟨ws, hw⟩ := words_head (d :: s)
  rw [List.takeWhile_cons_of_pos (by simp [hd])] at hw
  refine ⟨s.takeWhile fun c => !isBlank c, ws.filter fun w => !w.isEmpty, ?_, ?_⟩
  · rw [blocks, hw]
    simp
  · rw [blocks, words_cons hc, hw]
    simp

theorem blocks_single {c : Char} (hc : isBlank c = false) {s : List Char} (hs : ∀ d ∈ s.head?, isBlank d = true) :
    blocks (c :: s) = [c] :: blocks s := by
  obtain ⟨ws, hw⟩ := words_head s
  have hn : (s.takeWhile fun c => !isBlank c) = [] := by
    cases s with
    | nil => rfl
    | cons d s => simp [hs d rfl]
  rw [hn] at hw
  rw [blocks, blocks, words_cons hc, hw]
  simp

theorem blocks_eq_nil_of_blank {s : List Char} (h : ∀ c ∈ s, isBlank c = true) : blocks s = [] := by
  induction s with
  | nil => rfl
  | cons c s ih =>
    rw [blocks_blank (h c (by simp))]
    exact ih fun d hd => h d (by simp [hd])

theorem blocks_word {w : List Char} (hn : w ≠ []) (h : ∀ c ∈ w, isBlank c = false) : blocks w = [w] := by
  induction w with
  | nil => exact absurd rfl hn
  | cons c w ih =>
    rw [List.forall_mem_cons] at h
    cases w with
    | nil => exact blocks_single h.1 (by simp)
    | cons d w =>
      obtain ⟨w', bs, h₁, h₂⟩ := blocks_grow h.1 (h.2 d (by simp)) w
      rw [ih (by simp) h.2] at h₁
      cases h₁
      exact h₂

/-! ## Two texts in a row -/

theorem blocks_append_of_blank {x y : List Char}
    (h : ∀ a ∈ x.getLast?, ∀ b ∈ y.head?, isBlank a = true ∨ isBlank b = true) :
    blocks (x ++ y) = blocks x ++ blocks y := by
  induction x with
  | nil => simp [blocks_nil]
  | cons c x ih =>
    cases x with
    | nil =>
      cases hc : isBlank c with
      | true => rw [List.singleton_append, blocks_blank hc, blocks_blank hc, blocks_nil, List.nil_append]
      | false =>
        have hy : ∀ d ∈ y.head?, isBlank d = true := fun d hd => (h c rfl d hd).resolve_left (by simp [hc])
        rw [List.singleton_append, blocks_single hc hy, blocks_single hc (by simp), blocks_nil]
        rfl
    | cons d x =>
      have ih := ih fun a ha => h a (by simpa [List.getLast?_cons] using ha)
      cases hc : isBlank c with
      | true => rw [List.cons_append, blocks_blank hc, blocks_blank hc, ih]
      | false =>
        cases hd : isBlank d with
        | true => rw [List.cons_append, blocks_single hc (by simpa), blocks_single hc (by simpa), ih]; rfl
        | false =>
          obtain ⟨w, bs, h₁, h₂⟩ := blocks_grow hc hd x
          obtain ⟨w', bs', h₁', h₂'⟩ := blocks_grow hc hd (x ++ y)
          rw [List.cons_append, h₁', h₁] at ih
          obtain ⟨hw, rfl⟩ := List.cons.inj ih
          rw [List.cons_append, List.cons_append, h₂', h₂, hw]
          rfl

theorem blocks_append_blank {c : Char} (hc : isBlank c = true) (x y : List Char) :
    blocks (x ++ c :: y) = blocks x ++ blocks y := by
  rw [blocks_append_of_blank (by simp [hc]), blocks_blank hc]

section
variable {P : Char → Bool} {x y : List Char} {a b : Char}

theorem exists_run_start (hy : y.head? = some b) (hb : P b = true) :
    ∃ v y₀, y = v ++ y₀ ∧ (∀ c ∈ v, P c = true) ∧ v.head? = some b ∧ ∀ c ∈ y₀.head?, P c = false := by
  obtain ⟨y, rfl⟩ := List.head?_eq_some_iff.mp hy
  refine ⟨(b :: y).takeWhile P, (b :: y).dropWhile P, List.takeWhile_append_dropWhile.symm, ?_, ?_, ?_⟩
  · intro c hc
    exact List.mem_takeWhile_imp hc
  · rw [List.takeWhile_cons_of_pos hb]
    rfl
  · exact head_dropWhile

theorem exists_run_end (hx : x.getLast? = some a) (ha : P a = true) :
    ∃ x₀ u, x = x₀ ++ u ∧ (∀ c ∈ u, P c = true) ∧ u.getLast? = some a ∧ ∀ c ∈ x₀.getLast?, P c = false := by
  have hx' : x.reverse.head? = some a := by rwa [List.head?_reverse]
  obtain ⟨v, y, hr, hp, hh, hy⟩ := exists_run_start hx' ha
  refine ⟨y.reverse, v.reverse, ?_, ?_, ?_, ?_⟩
  · rw [← List.reverse_append, ← hr, List.reverse_reverse]
  · simpa using hp
  · rwa [List.getLast?_reverse]
  · rwa [List.getLast?_reverse]

end

/-- Two texts without a blank between them: the words at the seam become one. -/
theorem blocks_append_of_not_blank {x y : List Char} {a b : Char} (hx : x.getLast? = some a) (hy : y.head? = some b)
    (ha : isBlank a = false) (hb : isBlank b = false) :
    ∃ W u v Z, blocks x = W ++ [u] ∧ blocks y = v :: Z ∧ u.getLast? = some a ∧ v.head? = some b ∧
      blocks (x ++ y) = W ++ (u ++ v) :: Z := by
  obtain ⟨x₀, u, rfl, hu, hl, hx₀⟩ := exists_run_end (P := fun c => !isBlank c) hx (by simp [ha])
  obtain ⟨v, y₀, rfl, hv, hh, hy₀⟩ := exists_run_start (P := fun c => !isBlank c) hy (by simp [hb])
  simp only [Bool.not_eq_true', Bool.not_eq_false'] at hu hx₀ hv hy₀
  have hune : u ≠ [] := List.ne_nil_of_mem (List.mem_of_getLast? hl)
  have hvne : v ≠ [] := List.ne_nil_of_mem (List.mem_of_mem_head? hh)
  have left : ∀ s, blocks (x₀ ++ s) = blocks x₀ ++ blocks s :=
    fun s => blocks_append_of_blank fun c hc _ _ => .inl (hx₀ c hc)
  have right : ∀ s, blocks (s ++ y₀) = blocks s ++ blocks y₀ :=
    fun s => blocks_append_of_blank fun _ _ c hc => .inr (hy₀ c hc)
  refine ⟨blocks x₀, u, v, blocks y₀, ?_, ?_, hl, hh, ?_⟩
  · rw [left, blocks_word hune hu]
  · rw [right, blocks_word hvne hv]
    rfl
  · have huv : blocks (u ++ v) = [u ++ v] :=
      blocks_word (List.append_ne_nil_of_left_ne_nil hune v) (List.forall_mem_append.mpr ⟨hu, hv⟩)
    rw [List.append_assoc, ← List.append_assoc u, left, right, huv]
    rfl

/-! ## Trimming -/

theorem blocks_trimStart (s : List Char) : blocks (trimStart s) = blocks s := by
  induction s with
  | nil => rfl
  | cons c s ih =>
    rw [trimStart, List.dropWhile_cons]
    split
    · rename_i hc
      rw [blocks_blank hc]
      exact ih
    · rfl

theorem blocks_trimEnd (s : List Char) : blocks (trimEnd s) = blocks s := by
  have hs : trimEnd s ++ s.rtakeWhile isBlank = s := List.rdropWhile_append_rtakeWhile
  have hb : ∀ c ∈ s.rtakeWhile isBlank, isBlank c = true := fun c hc => List.mem_rtakeWhile_imp hc
  conv_rhs => rw [← hs]
  rw [blocks_append_of_blank fun _ _ b hy => .inr (hb b (List.mem_of_mem_head? hy)), blocks_eq_nil_of_blank hb,
    List.append_nil]

theorem blocks_trim (s : List Char) : blocks (trim s) = blocks s := by
  rw [trim, blocks_trimEnd, blocks_trimStart]

theorem words_tail_ne_nil {s : List Char} (h : ∀ a ∈ s.getLast?, isBlank a = false) :
    ∀ w ∈ (words s).tail, w ≠ [] := by
  induction s with
  | nil => simp [words]
  | cons c s ih =>
    cases s with
    | nil =>
      have hc : isBlank c = false := h c rfl
      simp [words_cons hc, show words [] = [[]] from rfl]
    | cons d s =>
      have ih := ih fun a ha => h a (by simpa [List.getLast?_cons] using ha)
      cases hc : isBlank c with
      | false => simpa [words_cons hc] using ih
      | true =>
        rw [words_blank hc]
        split
        · exact ih
        · rename_i hd
          obtain ⟨ws, hw⟩ := words_head (d :: s)
          rw [hw] at ih ⊢
          intro w hm
          rcases List.mem_cons.mp hm with rfl | hm
          · simp [show isBlank d = false by simpa using hd]
          · exact ih w hm

theorem words_trim {s : List Char} (h : trim s ≠ []) : words (trim s) = blocks s := by
  have hl : ∀ a ∈ (trim s).getLast?, isBlank a = false := by
    intro a ha
    obtain ⟨hn, rfl⟩ := List.mem_getLast?_eq_getLast ha
    exact Bool.not_eq_true _ ▸ List.rdropWhile_last_not isBlank (trimStart s) hn
  have hf : ∃ c t, trim s = c :: t ∧ isBlank c = false := by
    obtain ⟨c, t, ht⟩ := List.exists_cons_of_ne_nil h
    obtain ⟨r, hr⟩ : trim s <+: trimStart s := List.rdropWhile_prefix isBlank (trimStart s)
    rw [ht] at hr
    refine ⟨c, t, ht, head_dropWhile (s := s) c ?_⟩
    rw [show s.dropWhile isBlank = trimStart s from rfl, ← hr]
    rfl
  obtain ⟨c, t, ht, hc⟩ := hf
  rw [← blocks_trim, blocks]
  have hw := words_tail_ne_nil hl
  obtain ⟨ws, hws⟩ := words_head (trim s)
  rw [hws] at hw ⊢
  symm
  rw [List.filter_eq_self]
  intro w hm
  rcases List.mem_cons.mp hm with rfl | hm
  · simp [ht, hc]
  · simpa using hw w hm

end MigrationLint.Text

namespace MigrationLint.Sql

open Text

/-! ## Tokens -/

theorem tokens_blank {c : Char} (h : isBlank c = true) (s : List Char) : tokens (c :: s) = tokens s := by
  rw [tokens, if_pos h]

theorem tokens_symbol {c : Char} (hb : isBlank c = false) (hw : isWordChar c = false) (s : List Char) :
    tokens (c :: s) = .symbol c :: tokens s := by
  rw [tokens, if_neg (by simp [hb]), if_neg (by simp [hw])]

theorem tokens_single {c : Char} (hw : isWordChar c = true) {s : List Char}
    (hs : ∀ d ∈ s.head?, isWordChar d = false) : tokens (c :: s) = .word [c] :: tokens s := by
  rw [tokens, if_neg (by simp [isBlank_of_isWordChar hw]), if_pos hw, if_neg]
  cases s <;> simp_all

theorem tokens_cons {c : Char} {s : List Char} (h : ∀ d ∈ s.head?, isWordChar c = false ∨ isWordChar d = false) :
    tokens (c :: s) = tokens [c] ++ tokens s := by
  cases hw : isWordChar c with
  | true =>
    rw [tokens_single hw fun d hd => (h d hd).resolve_left (by simp [hw]), tokens_single hw (by simp)]
    rfl
  | false =>
    cases hb : isBlank c with
    | true => rw [tokens_blank hb, tokens_blank hb]; rfl
    | false => rw [tokens_symbol hb hw, tokens_symbol hb hw]; rfl

theorem tokens_grow {c d : Char} (hc : isWordChar c = true) (hd : isWordChar d = true) (s : List Char) :
    ∃ w ts, tokens (d :: s) = .word (d :: w) :: ts ∧ tokens (c :: d :: s) = .word (c :: d :: w) :: ts := by
  have step : ∀ w ts, tokens (d :: s) = .word (d :: w) :: ts →
      tokens (c :: d :: s) = .word (c :: d :: w) :: ts := by
    intro w ts ht
    rw [tokens, if_neg (by simp [isBlank_of_isWordChar hc]), if_pos hc, if_pos (by simpa using hd), ht]
    rfl
  have grown : ∀ ts, ∃ w ts', grow d ts = .word (d :: w) :: ts' := by
    intro ts
    match ts with
    | [] => exact ⟨[], _, rfl⟩
    | .word w :: ts => exact ⟨w, ts, rfl⟩
    | .symbol e :: ts => exact ⟨[], _, rfl⟩
  by_cases hs : s.head?.any isWordChar = true
  · obtain ⟨w, ts, ht⟩ := grown (tokens s)
    have ht : tokens (d :: s) = .word (d :: w) :: ts := by
      rw [tokens, if_neg (by simp [isBlank_of_isWordChar hd]), if_pos hd, if_pos hs, ht]
    exact ⟨w, ts, ht, step w ts ht⟩
  · have ht : tokens (d :: s) = .word [d] :: tokens s := by
      rw [tokens, if_neg (by simp [isBlank_of_isWordChar hd]), if_pos hd, if_neg hs]
    exact ⟨[], tokens s, ht, step [] _ ht⟩

theorem tokens_word {w : List Char} (hn : w ≠ []) (h : ∀ c ∈ w, isWordChar c = true) : tokens w = [.word w] := by
  induction w with
  | nil => exact absurd rfl hn
  | cons c w ih =>
    rw [List.forall_mem_cons] at h
    cases w with
    | nil => exact tokens_single h.1 (by simp)
    | cons d w =>
      obtain ⟨w', ts, h₁, h₂⟩ := tokens_grow h.1 (h.2 d (by simp)) w
      rw [ih (by simp) h.2] at h₁
      cases h₁
      exact h₂

theorem tokens_append {x y : List Char}
    (h : ∀ a ∈ x.getLast?, ∀ b ∈ y.head?, isWordChar a = false ∨ isWordChar b = false) :
    tokens (x ++ y) = tokens x ++ tokens y := by
  induction x with
  | nil => rfl
  | cons c x ih =>
    cases x with
    | nil => exact tokens_cons fun d hd => h c rfl d hd
    | cons d x =>
      have ih := ih fun a ha => h a (by simpa [List.getLast?_cons] using ha)
      by_cases hw : isWordChar c = true ∧ isWordChar d = true
      · obtain ⟨w, ts, h₁, h₂⟩ := tokens_grow hw.1 hw.2 x
        obtain ⟨w', ts', h₁', h₂'⟩ := tokens_grow hw.1 hw.2 (x ++ y)
        rw [List.cons_append, h₁', h₁] at ih
        obtain ⟨hw, rfl⟩ := List.cons.inj ih
        rw [List.cons_append, List.cons_append, h₂', h₂]
        cases hw
        rfl
      · rw [not_and_or, Bool.not_eq_true, Bool.not_eq_true] at hw
        rw [List.cons_append, tokens_cons (s := d :: x ++ y) (by simpa using hw), ih,
          tokens_cons (s := d :: x) (by simpa using hw), List.append_assoc]

theorem tokens_append_of_word {x y : List Char} {a b : Char} (hx : x.getLast? = some a) (hy : y.head? = some b)
    (ha : isWordChar a = true) (hb : isWordChar b = true) :
    ∃ T u v R, tokens x = T ++ [.word u] ∧ tokens y = .word v :: R ∧ u.getLast? = some a ∧ v.head? = some b ∧
      tokens (x ++ y) = T ++ .word (u ++ v) :: R := by
  obtain ⟨x₀, u, rfl, hu, hl, hx₀⟩ := exists_run_end hx ha
  obtain ⟨v, y₀, rfl, hv, hh, hy₀⟩ := exists_run_start hy hb
  have hune : u ≠ [] := List.ne_nil_of_mem (List.mem_of_getLast? hl)
  have hvne : v ≠ [] := List.ne_nil_of_mem (List.mem_of_mem_head? hh)
  have left : ∀ s, tokens (x₀ ++ s) = tokens x₀ ++ tokens s :=
    fun s => tokens_append fun c hc _ _ => .inl (hx₀ c hc)
  have right : ∀ s, tokens (s ++ y₀) = tokens s ++ tokens y₀ :=
    fun s => tokens_append fun _ _ c hc => .inr (hy₀ c hc)
  refine ⟨tokens x₀, u, v, tokens y₀, ?_, ?_, hl, hh, ?_⟩
  · rw [left, tokens_word hune hu]
  · rw [right, tokens_word hvne hv]
    rfl
  · have huv : tokens (u ++ v) = [.word (u ++ v)] :=
      tokens_word (List.append_ne_nil_of_left_ne_nil hune v) (List.forall_mem_append.mpr ⟨hu, hv⟩)
    rw [List.append_assoc, ← List.append_assoc u, left, right, huv]
    rfl

theorem tokens_blocks (s : List Char) : tokens s = (blocks s).flatMap tokens := by
  induction s with
  | nil => rfl
  | cons c s ih =>
    cases hc : isBlank c with
    | true => rw [tokens_blank hc, blocks_blank hc, ih]
    | false =>
      cases s with
      | nil =>
        rw [blocks_single hc (by simp)]
        simp [blocks_nil]
      | cons d s =>
        cases hd : isBlank d with
        | true =>
          have hs : ∀ e ∈ (d :: s).head?, isWordChar e = false := by simpa using isWordChar_of_isBlank hd
          rw [blocks_single hc (by simpa), tokens_cons fun e he => .inr (hs e he), ih]
          rfl
        | false =>
          obtain ⟨w, bs, h₁, h₂⟩ := blocks_grow hc hd s
          rw [h₁, List.flatMap_cons] at ih
          rw [h₂, List.flatMap_cons]
          by_cases hw : isWordChar c = true ∧ isWordChar d = true
          · obtain ⟨x, ts, h₃, h₄⟩ := tokens_grow hw.1 hw.2 s
            obtain ⟨x', ts', h₃', h₄'⟩ := tokens_grow hw.1 hw.2 w
            rw [h₃, h₃'] at ih
            rw [h₄, h₄']
            cases ih
            rfl
          · rw [not_and_or, Bool.not_eq_true, Bool.not_eq_true] at hw
            rw [tokens_cons (s := d :: s) (by simpa using hw), ih, tokens_cons (s := d :: w) (by simpa using hw),
              List.append_assoc]

theorem mem_of_symbol {c : Char} {s : List Char} (h : .symbol c ∈ tokens s) : c ∈ s := by
  have grown : ∀ (d : Char) (ts : List Token), .symbol c ∈ grow d ts → .symbol c ∈ ts := by
    intro d ts hm
    match ts with
    | [] => simp [grow] at hm
    | .word w :: ts => simpa [grow] using hm
    | .symbol e :: ts => simpa [grow] using hm
  induction s with
  | nil => cases h
  | cons d s ih =>
    rw [tokens] at h
    split at h
    · exact List.mem_cons_of_mem d (ih h)
    · split at h
      · split at h
        · exact List.mem_cons_of_mem d (ih (grown d _ h))
        · exact List.mem_cons_of_mem d (ih (by simpa using h))
      · rcases List.mem_cons.mp h with h | h
        · rw [Token.symbol.inj h]
          exact List.mem_cons_self
        · exact List.mem_cons_of_mem d (ih h)

/-! ## Schemas -/

/-- A token that starts no reference is passed over. -/
theorem schemas_skip {t : Token} {ts : List Token}
    (h : ∀ a b l, t = .word a → ts = .symbol '.' :: .word b :: l → (isIdent a && isIdent b) = false) :
    schemas (t :: ts) = schemas ts := by
  rw [schemas.eq_def]
  split
  · rename_i a b l heq
    cases heq
    rw [if_neg (by simp [h a b l rfl rfl])]
  · rename_i heq
    cases heq
    rfl
  · rename_i heq
    cases heq

/-- A token that can be no part of a reference takes the references before and after it apart. -/
theorem schemas_split {t : Token} (hdot : t ≠ .symbol '.') (hw : ∀ w, t = .word w → isIdent w = false)
    (l r : List Token) : schemas (l ++ t :: r) = schemas l ++ schemas r := by
  fun_induction schemas l with
  | case1 a b ts h ih =>
    rw [List.cons_append, List.cons_append, List.cons_append, schemas, if_pos h, ih]
    rfl
  | case2 a b ts h ih =>
    rw [List.cons_append, schemas_skip, ih]
    intro a' b' l ht hl
    cases ht
    cases hl
    simpa using h
  | case3 x ts h ih =>
    rw [List.cons_append, schemas_skip, ih]
    intro a b l e hl
    subst e
    rcases ts with _ | ⟨y, _ | ⟨z, ts⟩⟩
    · exact absurd (List.cons.inj hl).1 hdot
    · simp [hw b (List.cons.inj (List.cons.inj hl).2).1]
    · cases hl
      exact (h a b ts rfl rfl).elim
  | case4 => exact schemas_skip fun a b l ha _ => by simp [hw a ha]

theorem schemas_append {w : List Char} (hw : isIdent w = false) (l r : List Token) :
    schemas (l ++ .word w :: r) = schemas l ++ schemas r := by
  apply schemas_split (by simp)
  intro v hv
  cases hv
  exact hw

theorem schemas_symbol {c : Char} (hc : c ≠ '.') (l r : List Token) :
    schemas (l ++ .symbol c :: r) = schemas l ++ schemas r :=
  schemas_split (by simpa using hc) (by simp) l r

/-- Tokens without a dot refer to nothing, and they do not matter to what is behind them. -/
theorem schemas_append_of_no_dot {ts r : List Token} (h : .symbol '.' ∉ ts) (hr : r.head? ≠ some (.symbol '.')) :
    schemas (ts ++ r) = schemas r := by
  induction ts with
  | nil => rfl
  | cons t ts ih =>
    rw [List.mem_cons, not_or] at h
    rw [List.cons_append, schemas_skip, ih h.2]
    intro a b l _ e
    cases ts with
    | nil => exact absurd (by rw [show r = _ from e]; rfl) hr
    | cons u ts =>
      obtain ⟨rfl, -⟩ := List.cons.inj e
      exact absurd (by simp) h.2

theorem schemas_of_no_dot {ts : List Token} (h : .symbol '.' ∉ ts) : schemas ts = [] := by
  have := schemas_append_of_no_dot h (r := []) (by simp)
  rwa [List.append_nil] at this

theorem schemaRefs_trim (s : List Char) : schemaRefs (trim s) = schemaRefs s := by
  rw [schemaRefs, schemaRefs, tokens_blocks, blocks_trim, ← tokens_blocks]

/-! ## The verdict on words -/

def detectWords (ws : List Word) : Option Statement := forms.findSome? (·.read ws)

def ddlWords : List String := ["create", "alter", "drop", "truncate", "grant", "revoke", "comment"]

def IsDdlWords (ws : List Word) : Prop := .ofList (leadWord ws) ∈ ddlWords

def targets : List Word → List Word
  | [] => []
  | w :: ws => clauses "references".toList [] w ws

/-- A statement with these words has no problem. -/
def Clean (p : Policy) (ws : List Word) : Prop :=
  (∀ schema ∈ schemas (ws.flatMap tokens), schema ∈ p.allowedSchemas) ∧
    (IsDdlWords ws → (∃ st, detectWords ws = some st ∧ st.Accepted p) ∧ ∀ t ∈ targets ws, p.Approves (.ofList t))

theorem clean_nil (p : Policy) : Clean p [] := by
  refine ⟨by simp [schemas], fun h => absurd h ?_⟩
  unfold IsDdlWords
  decide

theorem checkStatement_trim (p : Policy) {s : List Char} (h : trim s ≠ []) :
    checkStatement p (trim s) = [] ↔ Clean p (blocks s) := by
  have hw := words_trim h
  have hd : isDdl (trim s) = true ↔ IsDdlWords (blocks s) := by
    rw [isDdl, hw, IsDdlWords, List.contains_iff_mem, ddlWords]
  have hf : ∀ q : String → Prop, (∀ t ∈ foreignKeys (trim s), q t) ↔ ∀ t ∈ targets (blocks s), q (.ofList t) := by
    intro q
    rw [foreignKeys, hw]
    cases blocks s <;> simp [targets]
  have hs : schemaRefs (trim s) = schemas ((blocks s).flatMap tokens) := by
    rw [schemaRefs_trim, schemaRefs, tokens_blocks]
  rw [Clean, ← hd, ← hs]
  cases hi : isDdl (trim s) with
  | false => rw [checkStatement, hi, ← schemaProblems_eq_nil_iff]; simp
  | true =>
    rw [checkStatement_ddl_eq_nil_iff hi, schemaProblems_eq_nil_iff, formProblems_eq_nil_iff,
      foreignKeyProblems_eq_nil_iff, hf, detect, hw]
    simp [detectWords]

/-- A check finds a problem in one of the statements. -/
def Flagged (p : Policy) (s : List Char) : Prop := ∃ x ∈ check p (.ofList s), x.problems ≠ []

theorem not_flagged_iff {p : Policy} {s : List Char} :
    ¬ Flagged p s ↔ ∀ piece ∈ pieces (· == ';') (normal s), Clean p (blocks piece) := by
  have h : ∀ piece, (trim piece ≠ [] → checkStatement p (trim piece) = []) ↔ Clean p (blocks piece) := by
    intro piece
    by_cases hp : trim piece = []
    · rw [← blocks_trim, hp]
      simp [blocks_nil, clean_nil]
    · rw [checkStatement_trim p hp]
      simp [hp]
  simp only [Flagged, check, statements, String.toList_ofList]
  simp [← h]

end MigrationLint.Sql
