import MigrationLint.Proofs.Ends
import MigrationLint.Proofs.Mentions

/-!
# Recognized statements as they are written

The words of a head and of what joins two names stand apart by blanks; free text may stand behind the
last name, and in triggers and policies between the two names (`Written`). However such a statement is
laid out and whatever the case of its letters, its problems are those of its names (`check_written`).
-/

namespace MigrationLint.Sql

open Text

/-! ## Words with gaps -/

def IsGap (g : List Char) : Prop := g ≠ [] ∧ ∀ c ∈ g, isBlank c = true

instance (g : List Char) : Decidable (IsGap g) :=
  decidable_of_iff (g ≠ [] ∧ g.all isBlank = true) (by simp [IsGap])

/-- The words one by one, a gap behind each. -/
inductive Spaced : List Word → List Char → Prop
  | nil : Spaced [] []
  | cons {w g s : List Char} {ws : List Word} : IsGap g → Spaced ws s → Spaced (w :: ws) (w ++ (g ++ s))

theorem harmless_of_chars {s : List Char} (h : ∀ c ∈ s, isBlank c = true ∨ c.isLower = true)
    (hr : .word "references".toList ∉ tokens s) : Harmless s := by
  have hne : ∀ d, isBlank d = false ∧ d.isLower = false → d ∉ s := by
    intro d hd hm
    rcases h d hm with hb | hl
    · simp [hd.1] at hb
    · simp [hd.2] at hl
  have hmark : ∀ c ∈ ['-', '/', '\x27', '\x22', '$'], isBlank c = false ∧ c.isLower = false :=
    forall_of_all (by decide)
  refine ⟨bare_of_chars fun c hc hm => hne c (hmark c hm) hc, hne '.' (by decide), hne ';' (by decide), ?_⟩
  · rwa [lower_eq_self]
    intro c hc
    rcases h c hc with hb | hl
    · exact lowers_blank hb
    · exact lowers_name (isNameChar_of_isLower hl)

theorem IsGap.spacious {g : List Char} (h : IsGap g) : Spacious g := fun c hc => h.2 c (List.mem_of_getLast? hc)

theorem blocks_gap {g : List Char} (h : IsGap g) : blocks g = [] := blocks_eq_nil_of_blank h.2

namespace Spaced

variable {ws : List Word} {s : List Char} (h : Spaced ws s)
include h

theorem spacious : Spacious s := by
  induction h with
  | nil => simp [Spacious]
  | @cons w g s ws hg h ih =>
    intro c hc
    rw [List.getLast?_append_of_ne_nil _ (by simp [hg.1])] at hc
    exact hg.spacious.append ih c hc

variable (hws : ∀ w ∈ ws, IsKeyword w)
include hws

theorem chars : ∀ c ∈ s, isBlank c = true ∨ c.isLower = true := by
  induction h with
  | nil => simp
  | @cons w g s ws hg h ih =>
    rw [List.forall_mem_cons] at hws
    simp only [List.forall_mem_append]
    exact ⟨fun c hc => .inr (hws.1.2 c hc), fun c hc => .inl (hg.2 c hc), ih hws.2⟩

theorem lower_eq : lower s = s := by
  apply lower_eq_self
  intro c hc
  rcases h.chars hws c hc with hb | hl
  · exact lowers_blank hb
  · exact lowers_name (isNameChar_of_isLower hl)

theorem blocks_eq : blocks s = ws := by
  induction h with
  | nil => rfl
  | @cons w g s ws hg h ih =>
    rw [List.forall_mem_cons] at hws
    have hgap : ∀ c ∈ (g ++ s).head?, isBlank c = true := by
      intro c hc
      rw [List.head?_append_of_ne_nil _ hg.1] at hc
      exact hg.2 c (List.mem_of_mem_head? hc)
    rw [blocks_append_of_blank fun _ _ c hc => .inr (hgap c hc), blocks_word hws.1.1 hws.1.not_blank,
      hg.spacious.blocks_append, blocks_gap hg, ih hws.2]
    rfl

theorem harmless (hr : "references".toList ∉ ws) : Harmless s := by
  refine harmless_of_chars (h.chars hws) ?_
  rw [tokens_blocks, h.blocks_eq hws]
  intro hm
  obtain ⟨w, hw, hm⟩ := List.mem_flatMap.mp hm
  rw [tokens_word (hws w hw).1 (hws w hw).isWordChar] at hm
  obtain rfl := Token.word.inj (List.mem_singleton.mp hm)
  exact hr hw

end Spaced

/-! ## Clauses between words -/

theorem last_token {key w : Word} (hk : IsKeyword key) (h : endsWithWord key [] w = true) :
    (tokens w).getLast? = some (.word key) := by
  obtain ⟨t, rfl, ht⟩ := endsWithWord_iff.mp h
  rw [tokens_append (x := t) fun a ha _ _ => .inl (ht a ha), tokens_word hk.1 hk.isWordChar]
  simp

theorem targets_eq_nil {ws : List Word} (h : ∀ w ∈ ws, (tokens w).getLast? ≠ some (.word "references".toList)) :
    targets ws = [] := by
  cases ws with
  | nil => rfl
  | cons w ws =>
    rw [targets]
    induction ws generalizing w with
    | nil => rfl
    | cons t ws ih =>
      rw [List.forall_mem_cons] at h
      have hw : endsWithWord "references".toList [] w = false :=
        Bool.eq_false_iff.mpr fun he => h.1 (last_token isKeyword_references he)
      rw [clauses_of_not hw, ih t h.2]

/-! ## What is detected -/

/-- The words are a statement with these names. -/
def Detected (ws : List Word) (ms : List Mention) : Prop :=
  ∃ st, detectWords ws = some st ∧ ∀ p, st.check p = ms.flatMap fun m => p.checkName m.context (.ofList m.text)

/-- The heads of the statements with one name, and what they name. -/
def singleHeads : List (List Part × String) :=
  [(tableHead, "table"), (viewHead, "view"), (dropIndexHead, "index"), (sequenceHead, "sequence"),
   (functionHead, "function"), (typeHead, "type")] ++
    commentObjects.map fun k => (commentHead ++ [.keyword [k]], k)

/-- The heads of the statements with a second name behind the word `on`, and what may stand between the two. -/
def joinedHeads : List (List Part × List Part × String) :=
  [(createIndexHead, [only], "index"), (dropTriggerHead, [], "trigger")]

/-- The heads of the statements with free text before the word `on`. -/
def apartHeads : List (List Part × String) := [(createTriggerHead, "trigger"), (policyHead, "policy")]

section
variable {m m' : Mention} {us : List Word}

theorem detected_oneName {head : List Part} {make : String → Statement} (hf : ⟨head, oneName make⟩ ∈ forms)
    (hmake : ∀ p name, (make name).check p = [(m.context, name)].flatMap fun n => p.checkName n.1 n.2)
    (hus : us ∈ spellings head) {x : Word} (hx : Stops x) (ws : List Word) : Detected (us ++ (m.text ++ x) :: ws) [m] :=
  ⟨make (.ofList m.text), detectWords_oneName hf hus m.isName hx.halts ws, fun p => by simp [hmake]⟩

theorem detected_comment {k : String} (hk : k ∈ commentObjects) (hm : m.context = k)
    (hus : us ∈ spellings (commentHead ++ [.keyword [k]])) {x : Word} (hx : Stops x) (ws : List Word) :
    Detected (us ++ (m.text ++ x) :: ws) [m] := by
  obtain rfl : us = ["comment".toList, "on".toList, k.toList] := by
    simpa [commentHead, spellings] using hus
  exact ⟨.commentOnObject k (.ofList m.text), detectWords_object hk m.isName hx.halts ws, fun p => by
    simp [Statement.check, Statement.names, hm]⟩

theorem detected_single {head : List Part} (h : (head, m.context) ∈ singleHeads) (hus : us ∈ spellings head)
    {x : Word} (hx : Stops x) (ws : List Word) : Detected (us ++ (m.text ++ x) :: ws) [m] := by
  have one : ∀ (make : String → Statement) {context : String}, m.context = context → ⟨head, oneName make⟩ ∈ forms →
      (∀ p name, (make name).check p = [(context, name)].flatMap fun n => p.checkName n.1 n.2) →
      Detected (us ++ (m.text ++ x) :: ws) [m] :=
    fun make context hm hf hmake => detected_oneName hf (hm ▸ hmake) hus hx ws
  rw [singleHeads, List.mem_append] at h
  rcases h with h | h
  · simp only [List.mem_cons, Prod.mk.injEq, List.not_mem_nil, or_false] at h
    rcases h with ⟨rfl, hm⟩ | ⟨rfl, hm⟩ | ⟨rfl, hm⟩ | ⟨rfl, hm⟩ | ⟨rfl, hm⟩ | ⟨rfl, hm⟩
    · exact one .table hm (by simp [forms]) fun _ _ => rfl
    · exact one .view hm (by simp [forms]) fun _ _ => rfl
    · exact one .dropIndex hm (by simp [forms]) fun _ _ => rfl
    · exact one .sequence hm (by simp [forms]) fun _ _ => rfl
    · exact one .function hm (by simp [forms]) fun _ _ => rfl
    · exact one .type hm (by simp [forms]) fun _ _ => rfl
  · obtain ⟨k, hk, he⟩ := List.mem_map.mp h
    obtain ⟨rfl, hm⟩ := Prod.mk.inj he
    exact detected_comment hk hm.symm hus hx ws

theorem detected_called (hm : m.context = "function")
    (hus : us ∈ spellings (commentHead ++ [.keyword ["function"]])) {x : Word} (hx : Stops x) {ws : List Word}
    (hparen : (skipBlank x ws).1.head? = some '(') : Detected (us ++ (m.text ++ x) :: ws) [m] :=
  ⟨.commentOnFunction (.ofList m.text), detectWords_called hus m.isName hx.halts hparen, fun p => by
    simp [Statement.check, Statement.names, hm]⟩

theorem detected_joined {head between : List Part} (h : (head, between, m.context) ∈ joinedHeads)
    (hm' : m'.context = "table") (hus : us ∈ spellings head) {vs : List Word} (hvs : vs ∈ spellings between) {x : Word}
    (hx : Stops x) (ws : List Word) :
    Detected (us ++ m.text :: on :: (vs ++ (m'.text ++ x) :: ws)) [m, m'] := by
  have joined : ∀ (make : String → String → Statement) {context : String}, m.context = context →
      ⟨head, nameOnName between make⟩ ∈ forms → Clear between →
      (∀ p first second, (make first second).check p =
        [(context, first), ("table", second)].flatMap fun n => p.checkName n.1 n.2) →
      Detected (us ++ m.text :: on :: (vs ++ (m'.text ++ x) :: ws)) [m, m'] := by
    intro make context hm hf hclear hmake
    exact ⟨make (.ofList m.text) (.ofList m'.text),
      detectWords_nameOnName hus m.isName m'.isName hx.halts hf hclear hvs ws, fun p => by simp [hmake, hm, hm']⟩
  simp only [joinedHeads, List.mem_cons, Prod.mk.injEq, List.not_mem_nil, or_false] at h
  rcases h with ⟨rfl, rfl, hm⟩ | ⟨rfl, rfl, hm⟩
  · exact joined .createIndex hm (by simp [forms]) (by decide) fun _ _ _ => rfl
  · exact joined .dropTrigger hm (by simp [forms]) (by decide) fun _ _ _ => rfl

theorem detected_apart {head : List Part} (h : (head, m.context) ∈ apartHeads) (hm' : m'.context = "table")
    (hus : us ∈ spellings head) {M : List Word} (hM : ∀ w ∈ M, endsWithWord on [] w = false) {x : Word} (hx : Stops x)
    (ws : List Word) : Detected (us ++ m.text :: (M ++ on :: (m'.text ++ x) :: ws)) [m, m'] := by
  have apart : ∀ (make : String → String → Statement) {context : String}, m.context = context →
      ⟨head, nameThenOn make⟩ ∈ forms →
      (∀ p first second, (make first second).check p =
        [(context, first), ("table", second)].flatMap fun n => p.checkName n.1 n.2) →
      Detected (us ++ m.text :: (M ++ on :: (m'.text ++ x) :: ws)) [m, m'] := by
    intro make context hm hf hmake
    exact ⟨make (.ofList m.text) (.ofList m'.text),
      detectWords_nameThenOn hus m.isName m'.isName hx.halts hf hM ws, fun p => by simp [hmake, hm, hm']⟩
  simp only [apartHeads, List.mem_cons, Prod.mk.injEq, List.not_mem_nil, or_false] at h
  rcases h with ⟨rfl, hm⟩ | ⟨rfl, hm⟩
  · exact apart .createTrigger hm (by simp [forms]) fun _ _ _ => rfl
  · exact apart .policy hm (by simp [forms]) fun _ _ _ => rfl

end

/-! ## Statements as they are written -/

/-- Free text between a name and the word `on`. -/
structure Middle (s : List Char) : Prop where
  starts : ∃ c ∈ s.head?, isBlank c = true
  ends : ∃ c ∈ s.getLast?, isBlank c = true
  harmless : Harmless s
  no_on : .word on ∉ tokens (lower s)

/-- A statement with its names, its keywords and names in lowercase. -/
inductive Written : List Mention → List Char → Prop
  | single {head : List Part} {us : List Word} {s t : List Char} {m : Mention} :
      (head, m.context) ∈ singleHeads → us ∈ spellings head → Spaced us s → Stops t → Harmless t →
        Written [m] (s ++ (m.text ++ t))
  | called {us : List Word} {s g t : List Char} {m : Mention} :
      m.context = "function" → us ∈ spellings (commentHead ++ [.keyword ["function"]]) → Spaced us s →
        (∀ c ∈ g, isBlank c = true) → Harmless (g ++ '(' :: t) → Written [m] (s ++ (m.text ++ (g ++ '(' :: t)))
  | joined {head between : List Part} {us vs : List Word} {s g u t : List Char} {m m' : Mention} :
      (head, between, m.context) ∈ joinedHeads → m'.context = "table" → us ∈ spellings head → Spaced us s →
        IsGap g → vs ∈ spellings (.keyword ["on"] :: between) → Spaced vs u → Stops t → Harmless t →
        Written [m, m'] (s ++ (m.text ++ (g ++ u ++ (m'.text ++ t))))
  | apart {head : List Part} {us : List Word} {s mid u t : List Char} {m m' : Mention} :
      (head, m.context) ∈ apartHeads → m'.context = "table" → us ∈ spellings head → Spaced us s → Middle mid →
        Spaced [on] u → Stops t → Harmless t → Written [m, m'] (s ++ (m.text ++ (mid ++ u ++ (m'.text ++ t))))

def Worded (us : List Word) : Prop := (∀ w ∈ us, IsKeyword w) ∧ "references".toList ∉ us

instance (us : List Word) : Decidable (Worded us) :=
  decidable_of_iff (us.all (fun w => decide (IsKeyword w)) = true ∧ us.contains "references".toList = false) (by
    simp only [Worded, List.all_eq_true, decide_eq_true_eq, ← Bool.not_eq_true, List.contains_iff_mem])

instance (us : List Word) : Decidable (IsDdlWords us) := by unfold IsDdlWords; infer_instance

def heads : List (List Part) :=
  singleHeads.map Prod.fst ++ joinedHeads.map Prod.fst ++ apartHeads.map Prod.fst ++
    [commentHead ++ [.keyword ["function"]]]

theorem worded_heads : ∀ head ∈ heads, ∀ us ∈ spellings head, Worded us ∧ IsDdlWords us := by decide +kernel

theorem worded_between : ∀ x ∈ joinedHeads, ∀ vs ∈ spellings (.keyword ["on"] :: x.2.1), Worded vs := by decide

theorem IsDdlWords.append {us : List Word} (h : IsDdlWords us) (r : List Word) : IsDdlWords (us ++ r) := by
  cases us with
  | nil => exact absurd h (by decide)
  | cons w us => exact h

theorem stops_blank {s : List Char} (h : ∃ c ∈ s.head?, isBlank c = true) (t : List Char) : Stops (s ++ t) := by
  obtain ⟨c, hc, hb⟩ := h
  intro d hd
  rw [List.head?_append, hc] at hd
  obtain rfl := Option.some.inj hd
  exact .inl hb

theorem stops_paren {g : List Char} (hg : ∀ c ∈ g, isBlank c = true) (t : List Char) : Stops (g ++ '(' :: t) := by
  intro c hc
  cases g with
  | nil => exact .inr (Option.some.inj hc).symm
  | cons d g => exact .inl (hg c (by simp [Option.some.inj hc]))

theorem IsGap.starts {g : List Char} (h : IsGap g) : ∃ c ∈ g.head?, isBlank c = true := by
  obtain ⟨c, g, rfl⟩ := List.exists_cons_of_ne_nil h.1
  exact ⟨c, rfl, h.2 c (by simp)⟩

theorem IsGap.harmless {g : List Char} (h : IsGap g) : Harmless g := by
  refine harmless_of_chars (fun c hc => .inl (h.2 c hc)) ?_
  rw [tokens_blocks, blocks_gap h]
  simp

theorem Middle.spacious {s : List Char} (h : Middle s) : Spacious s := by
  obtain ⟨c, hc, hb⟩ := h.ends
  intro d hd
  obtain rfl := Option.some.inj (hc.symm.trans hd)
  exact hb

namespace Written

variable {ms : List Mention} {s : List Char}

theorem layout (h : Written ms s) : Layout ms s := by
  have opening : ∀ {head us s}, head ∈ heads → us ∈ spellings head → Spaced us s → Harmless s :=
    fun hh hus hs => hs.harmless (worded_heads _ hh _ hus).1.1 (worded_heads _ hh _ hus).1.2
  cases h with
  | single hk hus hs ht hharm =>
    have hh := List.mem_map_of_mem (f := Prod.fst) hk
    exact .mention hs.spacious (opening (by simp [heads, hh]) hus hs) ht (.rest hharm)
  | @called us s g t m hm hus hs hg hharm =>
    exact .mention hs.spacious (opening (by simp [heads]) hus hs) (stops_paren hg t) (.rest hharm)
  | joined hk hm' hus hs hg hvs hu ht hharm =>
    have hh := List.mem_map_of_mem (f := Prod.fst) hk
    have hbetween := worded_between _ hk _ hvs
    have hmid := hg.harmless.append hg.spacious (hu.harmless hbetween.1 hbetween.2)
    refine .mention hs.spacious (opening (by simp [heads, hh]) hus hs) ?_
      (.mention (hg.spacious.append hu.spacious) hmid ht (.rest hharm))
    rw [List.append_assoc]
    exact stops_blank hg.starts _
  | apart hk hm' hus hs hmid hu ht hharm =>
    have hh := List.mem_map_of_mem (f := Prod.fst) hk
    have hon := hmid.harmless.append hmid.spacious (hu.harmless (by decide) (by decide))
    refine .mention hs.spacious (opening (by simp [heads, hh]) hus hs) ?_
      (.mention (hmid.spacious.append hu.spacious) hon ht (.rest hharm))
    rw [List.append_assoc]
    exact stops_blank hmid.starts _

end Written

theorem blocks_mention {us : List Word} (hus : ∀ w ∈ us, IsKeyword w) {s : List Char} (hs : Spaced us s) (m : Mention)
    {t : List Char} (ht : Stops t) :
    blocks (lower (s ++ (m.text ++ t))) = us ++ blocks (m.text ++ lower t) := by
  rw [lower_mention hs.spacious m ht, hs.lower_eq hus, hs.spacious.blocks_append, hs.blocks_eq hus]

theorem blocks_mentions {us vs : List Word} (hus : ∀ w ∈ us, IsKeyword w) (hvs : ∀ w ∈ vs, IsKeyword w)
    {s mid u t : List Char} (hs : Spaced us s) (hstart : ∃ c ∈ mid.head?, isBlank c = true) (hmid : Spacious mid)
    (hu : Spaced vs u) (m m' : Mention) (ht : Stops t) :
    blocks (lower (s ++ (m.text ++ (mid ++ u ++ (m'.text ++ t))))) =
      us ++ m.text :: (blocks (lower mid) ++ (vs ++ blocks (m'.text ++ lower t))) := by
  have hstops : Stops (mid ++ u ++ (m'.text ++ t)) := by
    rw [List.append_assoc]
    exact stops_blank hstart _
  have hblank : ∀ c ∈ (lower mid ++ u ++ (m'.text ++ lower t)).head?, isBlank c = true := by
    obtain ⟨c, hc, hb⟩ := hstart
    obtain ⟨mid, rfl⟩ := List.head?_eq_some_iff.mp hc
    rw [lower_cons_break (breaks_of_isBlank hb), lowerChar_of_isBlank hb]
    intro d hd
    obtain rfl := Option.some.inj hd
    exact hb
  rw [blocks_mention hus hs m hstops, lower_mention (hmid.append hu.spacious) m' ht, hmid.lower_append,
    hu.lower_eq hvs, m.blocks_text_blank hblank, List.append_assoc, hmid.lower.blocks_append, hu.spacious.blocks_append,
    hu.blocks_eq hvs]

theorem skipBlank_paren {g t : List Char} (hg : ∀ c ∈ g, isBlank c = true) {x : Word} {ws : List Word}
    (h : x = [] ∧ blocks (g ++ '(' :: t) = ws ∨ x.head? = some '(' ∧ blocks (g ++ '(' :: t) = x :: ws) :
    (skipBlank x ws).1.head? = some '(' := by
  rcases h with ⟨rfl, rfl⟩ | ⟨hx, -⟩
  · obtain ⟨w, ws, hw⟩ := blocks_head (c := '(') (by decide) t
    rw [blocks_append_of_blank fun a ha _ _ => .inl (hg a (List.mem_of_getLast? ha)), blocks_eq_nil_of_blank hg, hw]
    rfl
  · obtain ⟨y, rfl⟩ := List.head?_eq_some_iff.mp hx
    rfl

namespace Written

variable {ms : List Mention} {s : List Char}

theorem reads (h : Written ms s) : IsDdlWords (blocks (lower s)) ∧ Detected (blocks (lower s)) ms := by
  cases h with
  | @single head us s t m hk hus hs ht hharm =>
    have hh := List.mem_map_of_mem (f := Prod.fst) hk
    obtain ⟨hw, hddl⟩ := worded_heads head (by simp [heads, hh]) us hus
    obtain ⟨x, ws, hx, htext, -⟩ := m.blocks_text ht.lower
    rw [blocks_mention hw.1 hs m ht, htext]
    exact ⟨hddl.append _, detected_single hk hus hx ws⟩
  | @called us s g t m hm hus hs hg hharm =>
    obtain ⟨hw, hddl⟩ := worded_heads _ (by simp [heads]) us hus
    have ht := stops_paren hg t
    have hlower : lower (g ++ '(' :: t) = g ++ '(' :: lower t := by
      rw [lower_break (by decide), lower_eq_self fun c hc => lowers_blank (hg c hc)]
      rfl
    obtain ⟨x, ws, hx, htext, hrest⟩ := m.blocks_text ht.lower
    rw [hlower] at hrest
    rw [blocks_mention hw.1 hs m ht, htext]
    exact ⟨hddl.append _, detected_called hm hus hx (skipBlank_paren hg hrest)⟩
  | @joined head between us vs s g u t m m' hk hm' hus hs hg hvs hu ht hharm =>
    have hh := List.mem_map_of_mem (f := Prod.fst) hk
    obtain ⟨hw, hddl⟩ := worded_heads head (by simp [heads, hh]) us hus
    obtain ⟨x, ws, hx, htext, -⟩ := m'.blocks_text ht.lower
    have hgap : blocks (lower g) = [] := by
      rw [lower_eq_self fun c hc => lowers_blank (hg.2 c hc), blocks_gap hg]
    obtain ⟨vs, hvs', rfl⟩ : ∃ vs' ∈ spellings between, on :: vs' = vs := by
      simpa [spellings, on] using hvs
    rw [blocks_mentions hw.1 (worded_between _ hk _ hvs).1 hs hg.starts hg.spacious hu m m' ht, htext, hgap]
    exact ⟨hddl.append _, detected_joined hk hm' hus hvs' hx ws⟩
  | @apart head us s mid u t m m' hk hm' hus hs hmid hu ht hharm =>
    have hh := List.mem_map_of_mem (f := Prod.fst) hk
    obtain ⟨hw, hddl⟩ := worded_heads head (by simp [heads, hh]) us hus
    obtain ⟨x, ws, hx, htext, -⟩ := m'.blocks_text ht.lower
    have hM : ∀ w ∈ blocks (lower mid), endsWithWord on [] w = false := by
      intro w hw
      rw [Bool.eq_false_iff]
      intro he
      apply hmid.no_on
      rw [tokens_blocks]
      exact List.mem_flatMap.mpr ⟨w, hw, List.mem_of_getLast? (last_token isKeyword_on he)⟩
    rw [blocks_mentions hw.1 (by decide) hs hmid.starts hmid.spacious hu m m' ht, htext]
    exact ⟨hddl.append _, detected_apart hk hm' hus hM hx ws⟩

end Written

/-! ## The problems of a statement -/

/-- What is wrong with the names, the schemas first. -/
def nameProblems (p : Policy) (ms : List Mention) : List Problem :=
  ms.filterMap (fun m => p.checkSchema (m.schema.map .ofList)) ++
    ms.filterMap fun m => p.checkPrefix m.context (some (.ofList m.name))

theorem filter_checkName (p : Policy) {ms : List Mention} {found : List Problem}
    (h : ∀ m ∈ ms, ∀ x ∈ p.checkSchema (m.schema.map .ofList), x ∈ found) :
    (ms.flatMap fun m => p.checkName m.context (.ofList m.text)).filter (fun x => !(x.isSchema && found.contains x)) =
      ms.filterMap fun m => p.checkPrefix m.context (some (.ofList m.name)) := by
  induction ms with
  | nil => rfl
  | cons m ms ih =>
    rw [List.forall_mem_cons] at h
    -- what the schema of a name is wrong for is found before, its prefix never is
    have hschema : (p.checkSchema (m.schema.map .ofList)).toList.filter
        (fun x => !(x.isSchema && found.contains x)) = [] := by
      rw [List.filter_eq_nil_iff]
      intro x hx
      have hx := Option.mem_toList.mp hx
      simp [Policy.isSchema_of_checkSchema hx, h.1 x hx]
    have hprefix : (p.checkPrefix m.context (some (.ofList m.name))).toList.filter
        (fun x => !(x.isSchema && found.contains x)) = (p.checkPrefix m.context (some (.ofList m.name))).toList := by
      rw [List.filter_eq_self]
      intro x hx
      simp [Policy.isSchema_of_checkPrefix (Option.mem_toList.mp hx)]
    rw [List.flatMap_cons, List.filter_append, ih h.2, m.checkName_text, List.filter_append, hschema, hprefix]
    cases hx : p.checkPrefix m.context (some (.ofList m.name)) <;> simp [hx]

theorem checkStatement_detected {p : Policy} {s : List Char} {ms : List Mention} (hddl : IsDdlWords (blocks s))
    (hst : Detected (blocks s) ms) (hrefs : schemaRefs s = ms.filterMap (fun m => m.schema.map String.ofList))
    (hkeys : targets (blocks s) = []) : checkStatement p (trim s) = nameProblems p ms := by
  have hne : trim s ≠ [] := by
    intro e
    rw [← blocks_trim, e] at hddl
    exact absurd hddl (by decide)
  have hw := words_trim hne
  have hisDdl : isDdl (trim s) = true := by
    rw [isDdl, hw]
    exact List.contains_iff_mem.mpr hddl
  have hfound : schemaProblems p (trim s) = ms.filterMap fun m => p.checkSchema (m.schema.map .ofList) := by
    rw [schemaProblems, schemaRefs_trim, hrefs, List.filterMap_filterMap]
    congr 1
    funext m
    cases m.schema <;> rfl
  have hforeign : foreignKeyProblems p (trim s) = [] := by
    rw [foreignKeyProblems, foreignKeys, hw]
    cases hb : blocks s with
    | nil => rfl
    | cons w ws =>
      rw [hb] at hkeys
      have hkeys : clauses "references".toList [] w ws = [] := hkeys
      show ((clauses "references".toList [] w ws).map String.ofList).flatMap _ = []
      rw [hkeys]
      rfl
  obtain ⟨st, hdetect, hcheck⟩ := hst
  have hform : formProblems p (trim s) = ms.flatMap fun m => p.checkName m.context (.ofList m.text) := by
    rw [formProblems, detect, hw, show forms.findSome? (·.read (blocks s)) = some st from hdetect, Option.elim_some,
      hcheck]
  have hmem : ∀ m ∈ ms, ∀ x ∈ p.checkSchema (m.schema.map .ofList),
      x ∈ ms.filterMap fun m => p.checkSchema (m.schema.map .ofList) :=
    fun m hm x hx => List.mem_filterMap.mpr ⟨m, hm, hx⟩
  simp only [checkStatement, hisDdl, if_true]
  rw [hform, hfound, hforeign, filter_checkName p hmem, List.append_nil, nameProblems]

/-! ## Letters of either case -/

theorem pair_infix_map {f : Char → Char} {a b : Char} (ha : ∀ c, f c = a ↔ c = a) (hb : ∀ c, f c = b ↔ c = b)
    (s : List Char) : [a, b] <:+: s.map f ↔ [a, b] <:+: s := by
  induction s with
  | nil => simp
  | cons c s ih =>
    rw [List.map_cons, List.infix_cons_iff, List.infix_cons_iff, ih, List.cons_prefix_cons, List.cons_prefix_cons]
    cases s with
    | nil => simp [@eq_comm _ a, ha]
    | cons d s => simp [@eq_comm _ a, @eq_comm _ b, ha, hb]

theorem bare_toLower {s : List Char} : Bare (s.map Char.toLower) ↔ Bare s := by
  have htoLower : ∀ {d}, d.isAlpha = false → ∀ c : Char, c.toLower = d ↔ c = d := fun hd c => toLower_eq_iff hd
  unfold Bare
  rw [pair_infix_map (htoLower (by decide)) (htoLower (by decide)),
    pair_infix_map (htoLower (by decide)) (htoLower (by decide)), List.forall_mem_map]
  simp only [ne_eq, htoLower (d := '\x27') (by decide), htoLower (d := '\x22') (by decide),
    htoLower (d := '$') (by decide)]

/-- **Recognized statements.** A recognized statement, whatever its gaps, its free text and the case of its
letters, has exactly these problems: one for each schema that is not allowed, in the order of the names, and
then one for each name without the prefix, in its own context. -/
theorem check_written (policy : Policy) {ms : List Mention} {s t : List Char} (h : Written ms s)
    (ht : t.map Char.toLower = s.map Char.toLower) :
    check policy (.ofList (t ++ [';'])) = [⟨.ofList (trim (lower t)), nameProblems policy ms⟩] := by
  obtain ⟨hbare, hsemi⟩ := h.layout.bare
  have hlower : lower t = lower s := by rw [← lower_toLower, ht, lower_toLower]
  have hbare : Bare t := by
    rw [← bare_toLower, ht, bare_toLower]
    exact hbare
  have hend : Bare (t ++ [';']) := hbare.append (bare_of_chars (forall_of_all (by decide))) fun c hc => .inr (by simp)
  have hnormal : normal (t ++ [';']) = lower s ++ [';'] := by
    rw [normal, strip_bare hend, lower_break breaks_semicolon, hlower]
    rfl
  have hsemi : ';' ∉ lower s := fun hm => hsemi ((mem_lower_iff (by decide) (by decide) (by decide)).mp hm)
  obtain ⟨hddl, hst⟩ := h.reads
  have hne : trim (lower s) ≠ [] := by
    intro e
    rw [← blocks_trim, e] at hddl
    exact absurd hddl (by decide)
  have hstatements : statements (lower s ++ [';']) = [trim (lower s)] := by
    rw [statements_append, statements_of_not_mem hsemi, List.filter_cons_of_pos (by simpa using hne)]
    rfl
  rw [check, String.toList_ofList, hnormal, hstatements, hlower, List.map_singleton,
    checkStatement_detected hddl hst h.layout.schemas.1 (targets_eq_nil h.layout.ends)]

/-- An index on a table in a blocked schema, over two lines. -/
theorem check_written_index :
    let s := "create index w\n on only auth.v (id)".toList
    let t := "Create INDEX w\n ON only auth.V (id)".toList
    ∃ ms, Written ms s ∧ t.map Char.toLower = s.map Char.toLower ∧
      check ⟨"cb_", ["public"], ["auth"], []⟩ (.ofList (t ++ [';'])) =
        [⟨"create index w\n on only auth.v (id)",
          [.blockedSchema "auth", .missingPrefix "index" (some "w"), .missingPrefix "table" (some "v")]⟩] := by
  let index : Mention := ⟨"index", none, "w".toList, by simp, by decide, by decide, by decide⟩
  let table : Mention := ⟨"table", some "auth".toList, "v".toList, by decide, by decide, by decide, by decide⟩
  have hkind : (createIndexHead, [only], "index") ∈ joinedHeads := by simp [joinedHeads]
  have hwords : ["create", "index"].map String.toList ∈ spellings createIndexHead := by decide
  have hbetween : ["on", "only"].map String.toList ∈ spellings [.keyword ["on"], only] := by decide
  have hgap : IsGap [' '] := by decide
  have hnewline : IsGap ['\n', ' '] := by decide
  have hspaced : Spaced (["create", "index"].map String.toList) "create index ".toList := .cons hgap (.cons hgap .nil)
  have hon : Spaced (["on", "only"].map String.toList) "on only ".toList := .cons hgap (.cons hgap .nil)
  have hstops : Stops " (id)".toList := by
    intro c hc
    cases hc
    exact .inl rfl
  have hrest : Harmless " (id)".toList :=
    ⟨bare_of_chars (forall_of_all (by decide)), by decide, by decide, by decide⟩
  have h : Written [index, table] "create index w\n on only auth.v (id)".toList :=
    .joined hkind rfl hwords hspaced hnewline hbetween hon hstops hrest
  have hcase : "Create INDEX w\n ON only auth.V (id)".toList.map Char.toLower =
      "create index w\n on only auth.v (id)".toList.map Char.toLower := by decide
  exact ⟨[index, table], h, hcase, (check_written _ h hcase).trans (by decide +kernel)⟩

end MigrationLint.Sql
