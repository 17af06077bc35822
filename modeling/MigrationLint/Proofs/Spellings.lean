import Mathlib.Data.List.Forall2
import MigrationLint.Proofs.Heads

/-!
# Spellings of heads

A head has finitely many spellings: each keyword is one of its choices, each phrase is written or left
out. A form reads exactly the words that start with a spelling of its head (`mem_readings`), and what
comes behind the spelling is the first thing its tail is tried on (`head?_readings`). No two forms read
the same words (`forms_apart`), so a form that reads is the one that is found (`detectWords_of_read`).
-/

namespace MigrationLint.Sql

open Text

/-- The ways to write a head. -/
def spellings : List Part → List (List Word)
  | [] => [[]]
  | .keyword choices :: ps => choices.flatMap fun k => (spellings ps).map (k.toList :: ·)
  | .maybe phrases :: ps => (phrases ++ [[]]).flatMap fun ph : List String =>
      (spellings ps).map (ph.map String.toList ++ ·)

theorem after?_eq_some_iff {ph : List String} {ws r : List Word} :
    after? ph ws = some r ↔ ph.map String.toList ++ r = ws := by
  fun_induction after? ph ws with
  | case1 ws => simp [eq_comm]
  | case2 k ks ws ih => simp [ih]
  | case3 k ks w ws h => simp [Ne.symm h]
  | case4 => simp

theorem mem_readings {ps : List Part} {ws r : List Word} :
    r ∈ readings ps ws ↔ ∃ us ∈ spellings ps, us ++ r = ws := by
  induction ps generalizing ws with
  | nil => simp [readings, spellings, eq_comm]
  | cons part ps ih =>
    cases part with
    | keyword choices =>
      simp only [spellings, List.mem_flatMap, List.mem_map]
      cases ws with
      | nil =>
        simp only [readings, List.not_mem_nil, false_iff]
        rintro ⟨_, ⟨k, -, us, -, rfl⟩, h⟩
        cases h
      | cons w ws =>
        rw [readings]
        split
        · rename_i h
          obtain ⟨k, hk, rfl⟩ : ∃ k ∈ choices, k.toList = w := by simpa using h
          rw [ih]
          constructor
          · rintro ⟨us, hus, rfl⟩
            exact ⟨_, ⟨k, hk, us, hus, rfl⟩, rfl⟩
          · rintro ⟨_, ⟨k', -, us, hus, rfl⟩, h⟩
            exact ⟨us, hus, (List.cons.inj h).2⟩
        · rename_i h
          simp only [List.not_mem_nil, false_iff]
          rintro ⟨_, ⟨k, hk, us, -, rfl⟩, e⟩
          exact h (List.any_eq_true.mpr ⟨k, hk, by simp [(List.cons.inj e).1]⟩)
    | «maybe» phrases =>
      simp only [readings, spellings, List.flatMap_append, List.mem_append, List.mem_flatMap, List.mem_filterMap,
        after?_eq_some_iff, List.mem_map, ih]
      constructor
      · rintro (⟨s, ⟨ph, hph, rfl⟩, us, hus, rfl⟩ | ⟨s, hs, us, hus, rfl⟩)
        · exact ⟨_, .inl ⟨ph, hph, us, hus, rfl⟩, by simp⟩
        · obtain rfl := List.mem_singleton.mp hs
          exact ⟨us, .inr ⟨[], by simp, us, hus, rfl⟩, rfl⟩
      · rintro ⟨_, ⟨ph, hph, us, hus, rfl⟩ | ⟨ph, hph, us, hus, rfl⟩, rfl⟩
        · exact .inl ⟨_, ⟨ph, hph, by rw [List.append_assoc]⟩, us, hus, rfl⟩
        · obtain rfl := List.mem_singleton.mp hph
          exact .inr ⟨_, by simp, us, hus, rfl⟩

/-! ## The first reading -/

/-- The words that start an optional phrase and may stand where a name is read, too. -/
def optionals : List Word := ["if".toList, "only".toList, "concurrently".toList]

/-- Neither list starts the other. -/
def Diverge {α : Type} (a b : List α) : Prop := ¬ a <+: b ∧ ¬ b <+: a

instance {α : Type} [DecidableEq α] (a b : List α) : Decidable (Diverge a b) := by unfold Diverge; infer_instance

theorem Diverge.ne {α : Type} {a b : List α} (h : Diverge a b) (x y : List α) : a ++ x ≠ b ++ y := by
  intro e
  have ha : a <+: b ++ y := e ▸ List.prefix_append a x
  rcases List.prefix_or_prefix_of_prefix ha (List.prefix_append b y) with hab | hba
  · exact h.1 hab
  · exact h.2 hba

/-- The word neither starts the spelling nor is the name behind an empty one. -/
def Avoids (k : Word) (us : List Word) : Prop := us.head? ≠ some k ∧ (us = [] → k ∈ optionals)

instance (k : Word) (us : List Word) : Decidable (Avoids k us) := by unfold Avoids; infer_instance

theorem Avoids.after?_eq_none {k : String} {us : List Word} (h : Avoids k.toList us) (ks : List String)
    {r : List Word} (hr : ∀ w ∈ r.head?, w ∉ optionals) : after? (k :: ks) (us ++ r) = none := by
  rw [Option.eq_none_iff_forall_ne_some]
  intro x hx
  have hx := after?_eq_some_iff.mp hx
  cases us with
  | nil =>
    obtain rfl : k.toList :: (ks.map String.toList ++ x) = r := hx
    exact hr k.toList rfl (h.2 rfl)
  | cons w us => exact h.1 (by rw [(List.cons.inj hx).1]; rfl)

/-- Where a phrase is written, no other phrase can be read, and where it is left out, it cannot be read. -/
def Clear : List Part → Prop
  | [] => True
  | .keyword _ :: ps => Clear ps
  | .maybe phrases :: ps =>
    phrases.Pairwise (fun a b => Diverge (a.map String.toList) (b.map String.toList)) ∧
      (∀ ph ∈ phrases, ∃ k ∈ ph.head?, ∀ us ∈ spellings ps, Avoids k.toList us) ∧ Clear ps

def decClear : (ps : List Part) → Decidable (Clear ps)
  | [] => isTrue trivial
  | .keyword _ :: ps => decClear ps
  | .maybe _ :: ps =>
    have := decClear ps
    inferInstanceAs (Decidable (_ ∧ _ ∧ Clear ps))

instance (ps : List Part) : Decidable (Clear ps) := decClear ps

/-- What comes behind a spelling is read first. -/
theorem head?_readings {ps : List Part} (hps : Clear ps) {us : List Word} (hus : us ∈ spellings ps) {r : List Word}
    (hr : ∀ w ∈ r.head?, w ∉ optionals) : (readings ps (us ++ r)).head? = some r := by
  induction ps generalizing us with
  | nil =>
    obtain rfl := List.mem_singleton.mp hus
    rfl
  | cons part ps ih =>
    cases part with
    | keyword choices =>
      simp only [spellings, List.mem_flatMap, List.mem_map] at hus
      obtain ⟨k, hk, us, hus, rfl⟩ := hus
      rw [List.cons_append, readings, if_pos (List.any_eq_true.mpr ⟨k, hk, by simp⟩), ih hps hus]
    | «maybe» phrases =>
      obtain ⟨hapart, havoid, hps⟩ := hps
      rw [spellings, List.flatMap_append, List.mem_append, List.mem_flatMap] at hus
      rw [readings]
      rcases hus with ⟨ph, hph, hus⟩ | hus
      · -- a phrase is written: those tried before it diverge from it
        obtain ⟨us, hmem, rfl⟩ := List.mem_map.mp hus
        have ih := ih hps hmem
        obtain ⟨A, B, rfl⟩ := List.append_of_mem hph
        have hA : A.filterMap (after? · (ph.map String.toList ++ us ++ r)) = [] := by
          rw [List.filterMap_eq_nil_iff]
          intro a ha
          rw [Option.eq_none_iff_forall_ne_some]
          intro x hx
          have hdiv := (List.pairwise_append.mp hapart).2.2 a ha ph (by simp)
          exact hdiv.ne x (us ++ r) (by rw [after?_eq_some_iff.mp hx, List.append_assoc])
        have hread : after? ph (ph.map String.toList ++ us ++ r) = some (us ++ r) :=
          after?_eq_some_iff.mpr (List.append_assoc ..).symm
        rw [List.filterMap_append, hA, List.nil_append,
          List.filterMap_cons_some (f := (after? · (ph.map String.toList ++ us ++ r))) hread, List.cons_append,
          List.flatMap_cons, List.head?_append, ih]
        rfl
      · -- no phrase is written, and none can be read
        have hus : us ∈ spellings ps := by simpa using hus
        have hnone : phrases.filterMap (after? · (us ++ r)) = [] := by
          rw [List.filterMap_eq_nil_iff]
          intro ph hph
          obtain ⟨k, hk, h⟩ := havoid ph hph
          obtain ⟨ks, rfl⟩ := List.head?_eq_some_iff.mp hk
          exact (h us hus).after?_eq_none ks hr
        rw [hnone, List.nil_append, List.flatMap_singleton, ih hps hus]

theorem clear_heads : ∀ f ∈ forms, Clear f.head := by decide +kernel

theorem read_spelled {f : Form} (hf : f ∈ forms) {us r : List Word} {st : Statement} (hus : us ∈ spellings f.head)
    (hr : ∀ w ∈ r.head?, w ∉ optionals) (ht : f.tail r = some st) : f.read (us ++ r) = some st := by
  obtain ⟨l, hl⟩ := List.head?_eq_some_iff.mp (head?_readings (clear_heads f hf) hus hr)
  rw [Form.read, hl, List.findSome?_cons, ht]

/-! ## One form for each statement -/

/-- The words, the first cut down to its word characters. -/
def led (ws : List Word) : List Word := leadWord ws :: ws.tail

theorem led_keyword {k : Word} (hk : IsKeyword k) (ws : List Word) : led (k :: ws) = k :: ws := by
  have : k.takeWhile isWordChar = k := List.takeWhile_eq_self_iff.mpr hk.isWordChar
  simp [led, leadWord, this]

/-- Whatever the form reads starts with a spelling of the parts. -/
def Covers (ps : List Part) (f : Form) : Prop :=
  ∀ ws st, f.read ws = some st → ∃ us ∈ spellings ps, us <+: led ws

theorem exists_of_read {f : Form} {ws : List Word} {st : Statement} (h : f.read ws = some st) :
    ∃ us ∈ spellings f.head, ∃ r, us ++ r = ws ∧ f.tail r = some st := by
  obtain ⟨r, hr, ht⟩ := List.exists_of_findSome?_eq_some h
  obtain ⟨us, hus, he⟩ := mem_readings.mp hr
  exact ⟨us, hus, r, he, ht⟩

theorem covers_head {choices : List String} (hk : ∀ k ∈ choices, IsKeyword k.toList) (ps : List Part)
    (tail : List Word → Option Statement) :
    Covers (.keyword choices :: ps) ⟨.keyword choices :: ps, tail⟩ := by
  intro ws st h
  obtain ⟨us, hus, r, rfl, -⟩ := exists_of_read h
  refine ⟨us, hus, ?_⟩
  simp only [spellings, List.mem_flatMap, List.mem_map] at hus
  obtain ⟨k, hm, us, -, rfl⟩ := hus
  rw [List.cons_append, led_keyword (hk k hm)]
  exact List.prefix_append (k.toList :: us) r

theorem mem_spellings_only {k : Word} {choices : List String} (hk : .ofList k ∈ choices) :
    [k] ∈ spellings [.keyword choices] := by
  rw [spellings, List.mem_flatMap]
  exact ⟨.ofList k, hk, by simp [spellings]⟩

theorem covers_objectName : Covers (commentHead ++ [.keyword commentObjects]) ⟨commentHead, objectName⟩ := by
  intro ws st h
  obtain ⟨us, hus, r, rfl, ht⟩ := exists_of_read h
  obtain rfl : us = ["comment".toList, "on".toList] := by simpa [commentHead, spellings] using hus
  match r with
  | [] => cases ht
  | [_] => cases ht
  | k :: w :: r =>
    simp only [objectName] at ht
    split at ht
    · rename_i hk
      have hspelled :
          "comment".toList :: "on".toList :: [k] ∈ spellings (commentHead ++ [.keyword commentObjects]) := by
        simpa [commentHead, spellings] using mem_spellings_only (List.contains_iff_mem.mp hk)
      refine ⟨_, hspelled, ?_⟩
      rw [List.cons_append, led_keyword (by decide)]
      exact List.prefix_append ["comment".toList, "on".toList, k] (w :: r)
    · cases ht

theorem covers_grantOrRevoke : Covers [.keyword ["grant", "revoke"]] ⟨[], grantOrRevoke⟩ := by
  intro ws st h
  obtain ⟨us, hus, r, rfl, ht⟩ := exists_of_read h
  obtain rfl := List.mem_singleton.mp hus
  simp only [grantOrRevoke, List.nil_append] at ht ⊢
  split at ht
  · rename_i hk
    exact ⟨[leadWord r], mem_spellings_only (List.contains_iff_mem.mp hk), List.prefix_append [leadWord r] r.tail⟩
  · cases ht

/-- The starts of what each form reads, in the order of the forms. -/
def covers : List (List Part) :=
  [tableHead, dropTriggerHead, viewHead, createIndexHead, dropIndexHead, sequenceHead, functionHead, typeHead,
   createTriggerHead, commentHead ++ [.keyword commentObjects], createExtensionHead,
   commentHead ++ [.keyword ["column"]], commentHead ++ [.keyword ["function"]], [.keyword ["grant", "revoke"]],
   policyHead]

theorem covers_forms : List.Forall₂ Covers covers forms := by
  have verb : ∀ k ∈ ["create", "alter", "drop"], IsKeyword k.toList := by decide
  have create : ∀ k ∈ ["create"], IsKeyword k.toList := by decide
  have drop : ∀ k ∈ ["drop"], IsKeyword k.toList := by decide
  have comment : ∀ k ∈ ["comment"], IsKeyword k.toList := by decide
  exact .cons (covers_head verb _ _) <| .cons (covers_head drop _ _) <| .cons (covers_head verb _ _) <|
    .cons (covers_head create _ _) <| .cons (covers_head drop _ _) <| .cons (covers_head verb _ _) <|
    .cons (covers_head verb _ _) <| .cons (covers_head verb _ _) <| .cons (covers_head create _ _) <|
    .cons covers_objectName <| .cons (covers_head create _ _) <| .cons (covers_head comment _ _) <|
    .cons (covers_head comment _ _) <| .cons covers_grantOrRevoke <| .cons (covers_head verb _ _) .nil

theorem covers_diverge :
    covers.Pairwise fun ps qs => ∀ us ∈ spellings ps, ∀ vs ∈ spellings qs, Diverge us vs := by
  decide +kernel

theorem covers_get (i : Nat) (hi : i < forms.length) : Covers (covers.get ⟨i, hi⟩) (forms.get ⟨i, hi⟩) :=
  (List.forall₂_iff_get.mp covers_forms).2 i hi hi

/-- Of two forms at most one reads the words. -/
theorem forms_apart (ws : List Word) : forms.Pairwise fun f g => f.read ws = none ∨ g.read ws = none := by
  rw [List.pairwise_iff_getElem]
  intro i j hi hj hij
  by_contra hboth
  simp only [not_or, ← ne_eq, Option.ne_none_iff_exists'] at hboth
  obtain ⟨⟨st, hst⟩, st', hst'⟩ := hboth
  obtain ⟨us, hus, hu⟩ := covers_get i hi ws st hst
  obtain ⟨vs, hvs, hv⟩ := covers_get j hj ws st' hst'
  -- starts of the same words do not diverge
  have hdiv := List.pairwise_iff_getElem.mp covers_diverge i j hi hj hij us hus vs hvs
  rcases List.prefix_or_prefix_of_prefix hu hv with h | h
  · exact hdiv.1 h
  · exact hdiv.2 h

/-- What finds something where nothing else does is found, wherever it stands. -/
theorem findSome?_apart {α β : Type} {f : α → Option β} {l : List α}
    (hl : l.Pairwise fun a b => f a = none ∨ f b = none) {a : α} (ha : a ∈ l) {b : β} (hb : f a = some b) :
    l.findSome? f = some b := by
  induction l with
  | nil => cases ha
  | cons c l ih =>
    rw [List.pairwise_cons] at hl
    rw [List.findSome?_cons]
    rcases List.mem_cons.mp ha with rfl | ha
    · rw [hb]
    · have hc : f c = none := (hl.1 a ha).resolve_right (by simp [hb])
      rw [hc]
      exact ih hl.2 ha

theorem detectWords_of_read {f : Form} (hf : f ∈ forms) {ws : List Word} {st : Statement}
    (h : f.read ws = some st) : detectWords ws = some st :=
  findSome?_apart (forms_apart ws) hf h

theorem detectWords_spelled {f : Form} (hf : f ∈ forms) {us r : List Word} {st : Statement}
    (hus : us ∈ spellings f.head) (hr : ∀ w ∈ r.head?, w ∉ optionals) (ht : f.tail r = some st) :
    detectWords (us ++ r) = some st :=
  detectWords_of_read hf (read_spelled hf hus hr ht)

end MigrationLint.Sql
