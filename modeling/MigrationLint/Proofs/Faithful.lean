import MigrationLint.Proofs.Readings

/-!
# Characters that no check tells apart

A check tells characters beyond ASCII apart only by whether they are blanks or word characters. So a map
that keeps ASCII and these two kinds keeps the verdict on every statement (`Faithful.clean_iff`), as does
the map from a final sigma to the other form.
-/

namespace MigrationLint.Sql

open Text

def Token.map (f : Char → Char) : Token → Token
  | .word w => .word (w.map f)
  | .symbol c => .symbol (f c)

structure Faithful (f : Char → Char) : Prop where
  ascii : ∀ c, c.toNat < 128 → f c = c
  beyond : ∀ c, 128 ≤ c.toNat → 128 ≤ (f c).toNat
  blank : ∀ c, isBlank (f c) = isBlank c
  word : ∀ c, isWordChar (f c) = isWordChar c

namespace Faithful

variable {f : Char → Char} (hf : Faithful f)
include hf

/-! ## Characters -/

theorem eq_iff {c d : Char} (hd : d.toNat < 128) : f c = d ↔ c = d := by
  by_cases hc : c.toNat < 128
  · rw [hf.ascii c hc]
  · have hb := hf.beyond c (by omega)
    constructor
    · intro e
      subst e
      omega
    · intro e
      subst e
      omega

theorem kind {P : Char → Bool} (hP : ∀ c, P c = true → c.toNat < 128) (c : Char) : P (f c) = P c := by
  by_cases hc : c.toNat < 128
  · rw [hf.ascii c hc]
  · have hb := hf.beyond c (by omega)
    rw [Bool.eq_iff_iff]
    constructor
    · intro h
      have := hP _ h
      omega
    · intro h
      exact absurd (hP c h) hc

theorem ident (c : Char) : isIdentChar (f c) = isIdentChar c := hf.kind (fun _ => lt_of_isIdentChar) c

theorem name (c : Char) : isNameChar (f c) = isNameChar c := hf.kind (fun _ => lt_of_isNameChar) c

theorem lower (c : Char) : (f c).isLower = c.isLower :=
  hf.kind (fun _ h => lt_of_isIdentChar (isIdentChar_of_isLower h)) c

/-! ## Texts -/

theorem map_eq_iff {w k : Word} (hk : ∀ c ∈ k, c.toNat < 128) : w.map f = k ↔ w = k := by
  induction w generalizing k with
  | nil => simp [eq_comm]
  | cons c w ih =>
    cases k with
    | nil => simp
    | cons d k =>
      rw [List.map_cons, List.cons.injEq, List.cons.injEq, hf.eq_iff (hk d (by simp)),
        ih fun e he => hk e (by simp [he])]

theorem takeWhile_map {P : Char → Bool} (hP : ∀ c, P c = true → c.toNat < 128) (w : Word) :
    (w.map f).takeWhile P = w.takeWhile P := by
  induction w with
  | nil => rfl
  | cons c w ih =>
    rw [List.map_cons, List.takeWhile_cons, List.takeWhile_cons, hf.kind hP, ih]
    cases hc : P c with
    | true => rw [hf.ascii c (hP c hc)]
    | false => rfl

theorem rest_map (w : Word) : (w.map f).dropWhile isNameChar = (w.dropWhile isNameChar).map f := by
  rw [List.dropWhile_map]
  congr 2
  exact funext hf.name

theorem nameRun_map (w : Word) : nameRun (w.map f) = nameRun w := hf.takeWhile_map (fun _ => lt_of_isNameChar) w

theorem name?_map (w : Word) : name? (w.map f) = name? w := by rw [name?, name?, hf.nameRun_map]

omit hf in
theorem pieces_map {cut : Char → Bool} (hc : ∀ c, cut (f c) = cut c) (s : List Char) :
    pieces cut (s.map f) = (pieces cut s).map (List.map f) := by
  induction s with
  | nil => rfl
  | cons c s ih =>
    rw [List.map_cons, pieces, pieces, hc, ih]
    split
    · rfl
    · cases pieces cut s <;> rfl

theorem words_map (s : List Char) : words (s.map f) = (words s).map (List.map f) := by
  induction s with
  | nil => rfl
  | cons c s ih =>
    simp only [List.map_cons, words, hf.blank, ih, List.head?_map, Option.any_map]
    split
    · split <;> rfl
    · cases words s <;> rfl

theorem blocks_map (s : List Char) : blocks (s.map f) = (blocks s).map (List.map f) := by
  rw [blocks, blocks, hf.words_map, List.filter_map]
  congr 2
  funext w
  simp

/-! ## Schema references -/

theorem isIdent_map (w : Word) : isIdent (w.map f) = isIdent w := by
  cases w with
  | nil => rfl
  | cons c w =>
    have hall : isIdentChar ∘ f = isIdentChar := funext hf.ident
    have hc : (f c).isLower = c.isLower := hf.lower c
    have hu : (f c == '_') = (c == '_') := by
      rw [Bool.eq_iff_iff, beq_iff_eq, beq_iff_eq]
      exact hf.eq_iff (by decide)
    rw [List.map_cons, isIdent, isIdent, hc, hu, List.all_map, hall]

theorem map_of_isIdent {w : Word} (h : isIdent w = true) : w.map f = w :=
  (hf.map_eq_iff fun _ hc => lt_of_isIdentChar (isIdentChar_of_mem h hc)).mpr rfl

theorem tokens_map (s : List Char) : tokens (s.map f) = (tokens s).map (Token.map f) := by
  have grow_map : ∀ c ts, grow (f c) (ts.map (Token.map f)) = (grow c ts).map (Token.map f) := by
    intro c ts
    match ts with
    | [] => rfl
    | .word w :: ts => rfl
    | .symbol d :: ts => rfl
  induction s with
  | nil => rfl
  | cons c s ih =>
    simp only [List.map_cons, tokens, hf.blank, hf.word, ih, List.head?_map, Option.any_map]
    split
    · rfl
    · split
      · split
        · exact grow_map c _
        · rfl
      · rfl

theorem schemas_map (ts : List Token) : schemas (ts.map (Token.map f)) = schemas ts := by
  have hdot : ∀ c, f c = '.' ↔ c = '.' := fun c => hf.eq_iff (by decide)
  fun_induction schemas ts with
  | case1 a b ts h ih =>
    have ha : isIdent a = true := (Bool.and_eq_true .. ▸ h).1
    simp only [List.map_cons, Token.map, (hdot '.').mpr rfl, schemas, hf.isIdent_map, h, if_true, ih,
      hf.map_of_isIdent ha]
  | case2 a b ts h ih =>
    rw [← ih, List.map_cons, schemas_skip]
    intro a' b' l ht hl
    obtain rfl := Token.word.inj ht
    obtain rfl := Token.word.inj (List.cons.inj (List.cons.inj hl).2).1
    rw [hf.isIdent_map, hf.isIdent_map]
    simpa using h
  | case3 t ts h ih =>
    rw [← ih, List.map_cons, schemas_skip]
    intro a' b' l ht hl
    obtain ⟨x, ts, rfl, hx, hl⟩ := List.map_eq_cons_iff.mp hl
    obtain ⟨y, ts, rfl, hy, -⟩ := List.map_eq_cons_iff.mp hl
    cases t with
    | symbol c => cases ht
    | word a =>
      cases x with
      | word w => cases hx
      | symbol c =>
        cases y with
        | symbol d => cases hy
        | word b =>
          have hc : c = '.' := (hdot c).mp (Token.symbol.inj hx)
          exact (h a b ts rfl (by rw [hc])).elim
  | case4 => rfl

/-! ## Clauses -/

theorem endsWithWord_map {key : Word} (hk : IsKeyword key) (before w : Word) :
    endsWithWord key (before.map f) (w.map f) = endsWithWord key before w := by
  have hs : key.isSuffixOf (w.map f) = key.isSuffixOf w := by
    rw [Bool.eq_iff_iff, List.isSuffixOf_iff_suffix, List.isSuffixOf_iff_suffix]
    constructor
    · intro hx
      obtain ⟨t, ht⟩ := hx
      obtain ⟨t', k', rfl, rfl, hk'⟩ := List.map_eq_append_iff.mp ht.symm
      exact ⟨t', by rw [(hf.map_eq_iff hk.lt).mp hk']⟩
    · intro hx
      obtain ⟨t, rfl⟩ := hx
      exact ⟨t.map f, by rw [List.map_append, (hf.map_eq_iff hk.lt).mpr rfl]⟩
  have hb : ∀ o : Option Char, (o.map f).any isWordChar = o.any isWordChar := by
    intro o
    cases o <;> simp [hf.word]
  rw [endsWithWord, endsWithWord, hs, List.length_map, ← List.map_take, ← List.map_append, List.getLast?_map, hb]

theorem clauses_map {key : Word} (hk : IsKeyword key) (before w : Word) (ws : List Word) :
    clauses key (before.map f) (w.map f) (ws.map (List.map f)) = clauses key before w ws := by
  induction ws generalizing before w with
  | nil => rfl
  | cons t ws ih =>
    simp only [List.map_cons, clauses, hf.endsWithWord_map hk, hf.nameRun_map, hf.rest_map]
    rw [← ih [] t, ← ih [] (t.dropWhile isNameChar)]
    rfl

/-! ## Forms -/

theorem after?_map {ph : List String} (hk : ∀ k ∈ ph, IsKeyword k.toList) (ws : List Word) :
    after? ph (ws.map (List.map f)) = (after? ph ws).map (List.map (List.map f)) := by
  induction ph generalizing ws with
  | nil => rfl
  | cons k ks ih =>
    cases ws with
    | nil => rfl
    | cons w ws =>
      have hks := fun k' hk' => hk k' (List.mem_cons_of_mem k hk')
      simp only [List.map_cons, after?, hf.map_eq_iff (hk k (by simp)).lt, ih hks]
      split <;> rfl

theorem readings_map {ps : List Part} (hps : Lowercase ps) {tail : List Word → Option Statement}
    (ht : ∀ ws : List Word, tail (ws.map (List.map f)) = tail ws) (ws : List Word) :
    (readings ps (ws.map (List.map f))).findSome? tail = (readings ps ws).findSome? tail := by
  induction ps generalizing ws with
  | nil => simp [readings, ht]
  | cons part ps ih =>
    obtain ⟨hk, hps'⟩ := hps.cons
    have ih := ih hps'
    cases part with
    | keyword choices =>
      cases ws with
      | nil => rfl
      | cons w ws =>
        have hw : (∃ k ∈ choices, k.toList = w.map f) ↔ ∃ k ∈ choices, k.toList = w :=
          exists_congr fun k => and_congr_right fun hm => by
            rw [eq_comm, hf.map_eq_iff (hk k hm).lt, eq_comm]
        rw [List.map_cons, findSome?_keyword, findSome?_keyword, ih]
        exact if_congr hw rfl rfl
    | «maybe» phrases =>
      rw [findSome?_maybe, findSome?_maybe, ih]
      congr 1
      refine findSome?_congr fun ph hm => ?_
      rw [hf.after?_map fun k hk' => hk k (List.mem_flatten.mpr ⟨ph, hm, hk'⟩)]
      cases after? ph ws with
      | none => rfl
      | some rest => exact ih rest

theorem oneName_map (make : String → Statement) (ws : List Word) :
    oneName make (ws.map (List.map f)) = oneName make ws := by
  cases ws with
  | nil => rfl
  | cons w ws => rw [List.map_cons, oneName, oneName, hf.name?_map]

theorem nameOnName_map {between : List Part} (hb : Lowercase between) (make : String → String → Statement)
    (ws : List Word) : nameOnName between make (ws.map (List.map f)) = nameOnName between make ws := by
  match ws with
  | [] => rfl
  | [w] => rfl
  | w :: k :: ws =>
    have hall : isNameChar ∘ f = isNameChar := funext hf.name
    have hw : wholeName? (w.map f) = wholeName? w := by
      rw [wholeName?, wholeName?, List.all_map, hall, hf.name?_map]
    simp only [List.map_cons, nameOnName, hf.map_eq_iff isKeyword_on.lt, hw]
    refine if_congr Iff.rfl (congrArg _ (funext fun first => ?_)) rfl
    exact hf.readings_map hb (hf.oneName_map _) ws

theorem nameThenOn_map (make : String → String → Statement) (ws : List Word) :
    nameThenOn make (ws.map (List.map f)) = nameThenOn make ws := by
  cases ws with
  | nil => rfl
  | cons w ws =>
    rw [List.map_cons]
    by_cases hn : nameRun w = []
    · rw [nameThenOn, nameThenOn, hf.nameRun_map, hn]
      rfl
    have hn' : nameRun (w.map f) ≠ [] := by rwa [hf.nameRun_map]
    by_cases hr : w.dropWhile isNameChar = []
    · have hlt : ∀ c ∈ w, c.toNat < 128 := fun c hc => lt_of_isNameChar (List.dropWhile_eq_nil_iff.mp hr c hc)
      have hw : w.map f = w := (hf.map_eq_iff hlt).mpr rfl
      have hc := hf.clauses_map isKeyword_on w [] ws
      have hh : (ws.map (List.map f)).head?.bind name? = ws.head?.bind name? := by
        cases ws with
        | nil => rfl
        | cons t ws => exact hf.name?_map t
      rw [hw, List.map_nil] at hc
      rw [hw, nameThenOn_of_name make hn _ hr, nameThenOn_of_name make hn _ hr, hc, hh]
    · have hc := hf.clauses_map isKeyword_on [] w ws
      rw [List.map_nil] at hc
      have hr' : (w.map f).dropWhile isNameChar ≠ [] := by rwa [hf.rest_map, Ne, List.map_eq_nil_iff]
      rw [nameThenOn_of_rest make hn' _ hr', nameThenOn_of_rest make hn _ hr, hc, hf.nameRun_map]

theorem mem_texts {texts : List String} (ht : ∀ k ∈ texts, IsKeyword k.toList) (w : Word) :
    .ofList (w.map f) ∈ texts ↔ .ofList w ∈ texts := by
  have h : ∀ k ∈ texts, .ofList (w.map f) = k ↔ .ofList w = k := by
    intro k hk
    rw [← String.toList_inj, ← String.toList_inj, String.toList_ofList, String.toList_ofList,
      hf.map_eq_iff (ht k hk).lt]
  constructor
  · intro hm
    exact ((h _ hm).mp rfl) ▸ hm
  · intro hm
    exact ((h _ hm).mpr rfl) ▸ hm

theorem objectName_map (ws : List Word) : objectName (ws.map (List.map f)) = objectName ws := by
  have hk := isKeyword_commentObjects
  match ws with
  | [] => rfl
  | [w] => rfl
  | k :: w :: ws =>
    simp only [List.map_cons, objectName, List.contains_iff_mem, hf.mem_texts hk, hf.name?_map]
    split
    · rename_i hm
      have hlt := (hk _ hm).lt
      rw [String.toList_ofList] at hlt
      rw [(hf.map_eq_iff hlt).mpr rfl]
    · rfl

theorem extensionName_map (ws : List Word) : extensionName (ws.map (List.map f)) = extensionName ws := by
  cases ws with
  | nil => rfl
  | cons w ws =>
    have hq : (w.map f).head? = some '\x22' ↔ w.head? = some '\x22' := by
      cases w with
      | nil => simp
      | cons c w => simpa using hf.eq_iff (by decide)
    simp only [List.map_cons, extensionName, hq]
    split
    · rw [← List.map_tail, hf.takeWhile_map fun _ => lt_of_isExtensionChar]
    · rw [hf.takeWhile_map fun _ => lt_of_isExtensionChar]

omit hf in
theorem skipBlank_map (w : Word) (ws : List Word) :
    skipBlank (w.map f) (ws.map (List.map f)) = ((skipBlank w ws).1.map f, (skipBlank w ws).2.map (List.map f)) := by
  cases w with
  | cons c w => rfl
  | nil => cases ws <;> rfl

theorem dotColumn_map (w : Word) (ws : List Word) : dotColumn (w.map f) (ws.map (List.map f)) = dotColumn w ws := by
  have hdot : ∀ c, f c = '.' ↔ c = '.' := fun c => hf.eq_iff (by decide)
  have hany : ∀ o : Option Char, (o.map f).any (fun c => isNameChar c && c != '.') =
      o.any fun c => isNameChar c && c != '.' := by
    intro o
    cases o with
    | none => rfl
    | some c =>
      rw [Option.map_some, Option.any_some, Option.any_some, hf.name, Bool.eq_iff_iff]
      simp [hdot]
  have step : ∀ (c : Char) (r : Word) (ws : List Word),
      dotColumn ((c :: r).map f) (ws.map (List.map f)) = dotColumn (c :: r) ws := by
    intro c r ws
    by_cases hc : c = '.'
    · subst hc
      rw [List.map_cons, (hdot '.').mpr rfl, dotColumn_dot, dotColumn_dot, skipBlank_map, List.head?_map, hany]
    · have hc' : f c ≠ '.' := mt (hdot c).mp hc
      simp [dotColumn, skipBlank, hc, hc']
  cases w with
  | cons c r => exact step c r ws
  | nil =>
    cases ws with
    | nil => rfl
    | cons w ws =>
      cases w with
      | nil => rfl
      | cons c r => exact step c r ws

theorem columnTable_map (ws : List Word) : columnTable (ws.map (List.map f)) = columnTable ws := by
  have longest : ∀ (wanted : Word → Bool) (w : Word),
      longestName? wanted (w.map f) = longestName? (fun r => wanted (r.map f)) w := by
    intro wanted w
    induction w with
    | nil => rfl
    | cons c w ih =>
      simp only [List.map_cons, longestName?, hf.name, ih]
      split
      · rename_i hc
        rw [hf.ascii c (lt_of_isNameChar hc)]
      · rfl
  cases ws with
  | nil => rfl
  | cons w ws => simp only [List.map_cons, columnTable, longest, hf.dotColumn_map]

theorem calledName_map (ws : List Word) : calledName (ws.map (List.map f)) = calledName ws := by
  cases ws with
  | nil => rfl
  | cons w ws =>
    have hp : ∀ o : Option Char, o.map f = some '(' ↔ o = some '(' := by
      intro o
      cases o with
      | none => simp
      | some c => simpa using hf.eq_iff (by decide)
    simp only [List.map_cons, calledName, hf.rest_map, skipBlank_map, hf.name?_map, List.head?_map, hp]

theorem leadWord_map (ws : List Word) : leadWord (ws.map (List.map f)) = (leadWord ws).map f := by
  have hw : isWordChar ∘ f = isWordChar := funext hf.word
  cases ws with
  | nil => rfl
  | cons w ws => rw [List.map_cons, leadWord, leadWord, List.headD_cons, List.headD_cons, List.takeWhile_map, hw]

theorem grantOrRevoke_map (ws : List Word) : grantOrRevoke (ws.map (List.map f)) = grantOrRevoke ws := by
  simp only [grantOrRevoke, List.contains_iff_mem, hf.leadWord_map, hf.mem_texts isKeyword_grantOrRevoke]

/-! ## The verdict -/

theorem detectWords_map (ws : List Word) : detectWords (ws.map (List.map f)) = detectWords ws := by
  have tails : ∀ form ∈ forms, ∀ ws : List Word, form.tail (ws.map (List.map f)) = form.tail ws := by
    simp only [forms, List.forall_mem_cons]
    exact ⟨hf.oneName_map _, hf.nameOnName_map lowercase_nil _, hf.oneName_map _, hf.nameOnName_map lowercase_only _,
      hf.oneName_map _, hf.oneName_map _, hf.oneName_map _, hf.oneName_map _, hf.nameThenOn_map _, hf.objectName_map,
      hf.extensionName_map, hf.columnTable_map, hf.calledName_map, hf.grantOrRevoke_map, hf.nameThenOn_map _, by simp⟩
  exact findSome?_congr fun form hm => hf.readings_map (lowercase_forms form hm) (tails form hm) ws

theorem isDdlWords_map (ws : List Word) : IsDdlWords (ws.map (List.map f)) ↔ IsDdlWords ws := by
  rw [IsDdlWords, IsDdlWords, hf.leadWord_map, hf.mem_texts isKeyword_ddl]

theorem targets_map (ws : List Word) : targets (ws.map (List.map f)) = targets ws := by
  cases ws with
  | nil => rfl
  | cons w ws => exact hf.clauses_map isKeyword_references [] w ws

theorem clean_iff (p : Policy) (ws : List Word) : Clean p (ws.map (List.map f)) ↔ Clean p ws := by
  have ht : (ws.map (List.map f)).flatMap tokens = (ws.flatMap tokens).map (Token.map f) := by
    rw [List.flatMap_map, List.map_flatMap]
    exact List.flatMap_congr fun w _ => hf.tokens_map w
  rw [Clean, Clean, ht, hf.schemas_map, hf.isDdlWords_map, hf.detectWords_map, hf.targets_map]

end Faithful

end MigrationLint.Sql
