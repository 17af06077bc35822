import Mathlib.Algebra.Group.Nat.Even
import MigrationLint.Proofs.Words

/-!
# Chains of identifiers

In a chain of identifiers with dots between them the references pair off from the left. What references
see of the identifier behind a chain depends on how many identifiers the chain has (`schemas_behind`):
behind an even number it may be a schema, behind an odd number the reference before it has taken it.
-/

namespace MigrationLint.Sql

open Text

/-- Identifiers with a dot behind each. -/
def link (ws : List (List Char)) : List Token := ws.flatMap fun w => [.word w, .symbol '.']

/-- The number of identifiers with a dot behind each at the front of tokens that are read backwards. -/
def chain : List Token → Nat
  | .symbol '.' :: .word w :: ts => if isIdent w then chain ts + 1 else 0
  | _ => 0

/-- The number of identifiers in the chain that the tokens end with, a dot behind the last. -/
def linked (ts : List Token) : Nat := chain ts.reverse

/-- The tokens do not end with an identifier and a dot. -/
def Loose (ts : List Token) : Prop := ∀ w, isIdent w = true → ¬ [.word w, .symbol '.'] <:+ ts

theorem loose_reverse {ts : List Token} :
    Loose ts.reverse ↔ ∀ w, isIdent w = true → ¬ [.symbol '.', .word w] <+: ts := by
  refine forall_congr' fun w => imp_congr_right fun _ => not_congr ?_
  rw [← List.reverse_prefix, List.reverse_reverse]
  rfl

theorem exists_link (ts : List Token) :
    ∃ l ws, ts = l ++ link ws ∧ Loose l ∧ (∀ w ∈ ws, isIdent w = true) ∧ ws.length = linked ts := by
  suffices h : ∀ ts, ∃ l ws, ts.reverse = l ++ link ws ∧ Loose l ∧ (∀ w ∈ ws, isIdent w = true) ∧
      ws.length = chain ts by
    simpa [linked] using h ts.reverse
  intro ts
  fun_induction chain ts with
  | case1 w ts hw ih =>
    obtain ⟨l, ws, hl, hloose, hws, hlen⟩ := ih
    refine ⟨l, ws ++ [w], ?_, hloose, ?_, by simp [hlen]⟩
    · simp [hl, link]
    · exact List.forall_mem_append.mpr ⟨hws, List.forall_mem_singleton.mpr hw⟩
  | case2 w ts hw =>
    refine ⟨_, [], (List.append_nil _).symm, loose_reverse.mpr ?_, by simp, rfl⟩
    intro v hv hp
    obtain ⟨t, ht⟩ := hp
    cases ht
    exact hw hv
  | case3 ts h =>
    refine ⟨_, [], (List.append_nil _).symm, loose_reverse.mpr ?_, by simp, rfl⟩
    intro v hv hp
    obtain ⟨t, rfl⟩ := hp
    exact h v t rfl

/-! ## References behind a chain -/

theorem Loose.of_cons {t : Token} {ts : List Token} (h : Loose (t :: ts)) : Loose ts :=
  fun w hw hs => h w hw (hs.trans (List.suffix_cons t ts))

theorem schemas_loose {l : List Token} (hl : Loose l) {r : List Token} (hr : r.head? ≠ some (.symbol '.')) :
    schemas (l ++ r) = schemas l ++ schemas r := by
  fun_induction schemas l with
  | case1 a b ts h ih =>
    rw [List.cons_append, List.cons_append, List.cons_append, schemas, if_pos h, ih hl.of_cons.of_cons.of_cons]
    rfl
  | case2 a b ts h ih =>
    rw [List.cons_append, schemas_skip, ih hl.of_cons]
    intro a' b' l ht hl
    cases ht
    cases hl
    simpa using h
  | case3 t ts h ih =>
    rw [List.cons_append, schemas_skip, ih hl.of_cons]
    intro a b l ht he
    subst ht
    rcases ts with _ | ⟨x, _ | ⟨y, ts⟩⟩
    · rw [List.nil_append] at he
      exact absurd (by rw [he]; rfl) hr
    · cases he
      cases ha : isIdent a with
      | false => rfl
      | true => exact absurd (List.suffix_refl _) (hl a ha)
    · cases he
      exact (h a b ts rfl rfl).elim
  | case4 => rfl

/-- The identifiers of a chain that are schemas. -/
def starts : List (List Char) → List String
  | [] => []
  | [a] => [.ofList a]
  | a :: _ :: ws => .ofList a :: starts ws

theorem schemas_reference {a b : List Char} (ha : isIdent a = true) (hb : isIdent b = true) (ts : List Token) :
    schemas (.word a :: .symbol '.' :: .word b :: ts) = .ofList a :: schemas ts := by
  rw [schemas, if_pos (by rw [ha, hb]; rfl)]

theorem schemas_link {ws : List (List Char)} (hws : ∀ w ∈ ws, isIdent w = true) {s : List Char}
    (hs : isIdent s = true) (t : List Token) :
    schemas (link ws ++ .word s :: t) = starts ws ++ if Even ws.length then schemas (.word s :: t) else schemas t := by
  fun_induction starts ws with
  | case1 => simp [link]
  | case2 a =>
    have ha : isIdent a = true := hws a (by simp)
    rw [link, List.flatMap_singleton, if_neg (by simp)]
    exact schemas_reference ha hs t
  | case3 a b ws ih =>
    have ha : isIdent a = true := hws a (by simp)
    have hb : isIdent b = true := hws b (by simp)
    have ih := ih fun w hw => hws w (by simp [hw])
    have hlen : Even (a :: b :: ws).length ↔ Even ws.length := by
      rw [List.length_cons, List.length_cons, Nat.add_assoc]
      exact Nat.even_add.trans (iff_true_right (by decide))
    rw [if_congr hlen rfl rfl]
    -- the first two identifiers are a reference of their own
    have hlink : link (a :: b :: ws) ++ .word s :: t =
        .word a :: .symbol '.' :: .word b :: .symbol '.' :: (link ws ++ .word s :: t) := by simp [link]
    rw [hlink, schemas_reference ha hb, schemas_skip (by simp), ih]
    rfl

theorem tokens_schema {s : List Char} (hs : isIdent s = true) {l : List Char}
    (hl : ∀ c ∈ l.getLast?, isWordChar c = false) (t : List Char) :
    tokens (l ++ (s ++ '.' :: t)) = tokens l ++ .word s :: .symbol '.' :: tokens t := by
  have hn : s ≠ [] := by
    rintro rfl
    cases hs
  have hw : ∀ c ∈ s, isWordChar c = true := fun c hc => isWordChar_of_isIdentChar (isIdentChar_of_mem hs hc)
  have hdot : ∀ c ∈ ('.' :: t).head?, isWordChar c = false := by
    intro c hc
    cases hc
    decide
  rw [tokens_append fun a ha _ _ => .inl (hl a ha), tokens_append fun _ _ b hb => .inr (hdot b hb),
    tokens_word hn hw, tokens_symbol (by decide) (by decide)]
  rfl

/-- What references see of an identifier behind other tokens. -/
theorem schemas_behind (l : List Token) : ∃ refs, ∀ s, isIdent s = true → ∀ t,
    schemas (l ++ .word s :: t) = refs ++ if Even (linked l) then schemas (.word s :: t) else schemas t := by
  obtain ⟨l₀, ws, hl, hloose, hws, hlen⟩ := exists_link l
  refine ⟨schemas l₀ ++ starts ws, fun s hs t => ?_⟩
  rw [← hlen, hl, List.append_assoc, schemas_loose hloose, schemas_link hws hs, List.append_assoc]
  cases ws <;> simp [link]

end MigrationLint.Sql
