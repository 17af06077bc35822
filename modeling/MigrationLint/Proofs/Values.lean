import MigrationLint.Proofs.Literals

/-!
# JSON values

A value has many spellings: with any blanks around its items and marks, and any escapes in its strings. Each of them is
read as that value (`SpellsAlone.parse?`), and a value is written in one of them, on one line or with its items on
lines of their own (`parse?_write`).
-/

namespace MigrationLint.Json

/-! ## Spellings -/

def IsSpaces (s : List Char) : Prop := ∀ c ∈ s, isSpace c = true

mutual

/-- The spellings of a value, without blanks around it. -/
inductive Spells : Json → List Char → Prop
  | null : Spells .null ['n', 'u', 'l', 'l']
  | true : Spells (.bool true) ['t', 'r', 'u', 'e']
  | false : Spells (.bool false) ['f', 'a', 'l', 's', 'e']
  | number {n : Option Nat} {t : List Char} : SpellsNumber n t → Spells (.number n) t
  | text {s : Option String} {t : List Char} : SpellsText s t → Spells (.text s) t
  | noItems {a : List Char} : IsSpaces a → Spells (.array []) ('[' :: (a ++ [']']))
  | items {vs : List Json} {t : List Char} : SpellsItems vs t → Spells (.array vs) ('[' :: (t ++ [']']))
  | noMembers {a : List Char} : IsSpaces a → Spells (.object []) ('{' :: (a ++ ['}']))
  | members {ms : List (Option String × Json)} {t : List Char} :
      SpellsMembers ms t → Spells (.object ms) ('{' :: (t ++ ['}']))

/-- The spellings of one item or more. -/
inductive SpellsItems : List Json → List Char → Prop
  | last {v : Json} {a t b : List Char} :
      IsSpaces a → Spells v t → IsSpaces b → SpellsItems [v] (a ++ (t ++ b))
  | cons {v : Json} {vs : List Json} {a t b u : List Char} :
      IsSpaces a → Spells v t → IsSpaces b → SpellsItems vs u → SpellsItems (v :: vs) (a ++ (t ++ (b ++ ',' :: u)))

/-- The spellings of one member or more. -/
inductive SpellsMembers : List (Option String × Json) → List Char → Prop
  | last {k : Option String} {v : Json} {a s b c t d : List Char} :
      IsSpaces a → SpellsText k s → IsSpaces b → IsSpaces c → Spells v t → IsSpaces d →
        SpellsMembers [(k, v)] (a ++ (s ++ (b ++ ':' :: (c ++ (t ++ d)))))
  | cons {k : Option String} {v : Json} {ms : List (Option String × Json)} {a s b c t d u : List Char} :
      IsSpaces a → SpellsText k s → IsSpaces b → IsSpaces c → Spells v t → IsSpaces d → SpellsMembers ms u →
        SpellsMembers ((k, v) :: ms) (a ++ (s ++ (b ++ ':' :: (c ++ (t ++ (d ++ ',' :: u))))))

end

/-! ## Blanks -/

theorem skipSpace_cons {c : Char} (h : isSpace c = false) (s : List Char) : skipSpace (c :: s) = c :: s :=
  List.dropWhile_cons_of_neg (by simp [h])

theorem skipSpace_append {a : List Char} (h : IsSpaces a) (s : List Char) : skipSpace (a ++ s) = skipSpace s :=
  List.dropWhile_append_of_pos h

theorem ends_append {a : List Char} (h : IsSpaces a) {s : List Char} (hs : Ends s) : Ends (a ++ s) := by
  cases a with
  | nil => exact hs
  | cons b a =>
    intro c hc
    cases hc
    have hb := h b List.mem_cons_self
    simp only [isSpace, Bool.or_eq_true, beq_iff_eq] at hb
    rcases hb with ((rfl | rfl) | rfl) | rfl <;> decide

theorem ends_cons {c : Char} (h : c = ',' ∨ c = ']' ∨ c = '}') (s : List Char) : Ends (c :: s) := by
  intro d hd
  cases hd
  rcases h with rfl | rfl | rfl <;> decide

theorem value?_congr {s t : List Char} (h : skipSpace s = skipSpace t) (n : Nat) : value? n s = value? n t := by
  cases n with
  | zero => rfl
  | succ n => rw [value?, value?, h]

theorem items?_congr {s t : List Char} (h : skipSpace s = skipSpace t) (n : Nat) : items? n s = items? n t := by
  cases n with
  | zero => rfl
  | succ n => rw [items?, items?, value?_congr h]

theorem members?_congr {s t : List Char} (h : skipSpace s = skipSpace t) (n : Nat) :
    members? n s = members? n t := by
  cases n with
  | zero => rfl
  | succ n => rw [members?, members?, h]

/-! ## Reading -/

/-- The value is read from its spelling, whatever stands behind it that ends it. -/
def Reads (j : Json) (t : List Char) : Prop :=
  ∀ (n : Nat) (rest : List Char), 2 * t.length ≤ n → Ends rest → value? n (t ++ rest) = some (j, rest)

/-- The items are read from their spelling up to the bracket behind them. -/
def ReadsItems (vs : List Json) (t : List Char) : Prop :=
  ∀ (n : Nat) (rest : List Char), 2 * t.length < n → items? n (t ++ ']' :: rest) = some (vs, rest)

def ReadsMembers (ms : List (Option String × Json)) (t : List Char) : Prop :=
  ∀ (n : Nat) (rest : List Char), 2 * t.length < n → members? n (t ++ '}' :: rest) = some (ms, rest)

theorem ne_of_number {c d : Char} (hc : c.isDigit = true ∨ c = '-') (hd : d.isDigit = false) (hminus : d ≠ '-') :
    c ≠ d := by
  rintro rfl
  rcases hc with hc | rfl
  · exact absurd (hd.symm.trans hc) (by decide)
  · exact hminus rfl

theorem isSpace_of_number {c : Char} (hc : c.isDigit = true ∨ c = '-') : isSpace c = false := by
  simp [isSpace, ne_of_number hc]

theorem IsWhole.head {ds : List Char} (h : IsWhole ds) (s : List Char) :
    ∃ c t, ds ++ s = c :: t ∧ (c.isDigit = true ∨ c = '-') := by
  obtain ⟨c, t, rfl⟩ := List.exists_cons_of_ne_nil h.digits.1
  exact ⟨c, t ++ s, rfl, .inl (h.digits.2 c List.mem_cons_self)⟩

theorem spellsNumber_head {n : Option Nat} {t : List Char} (h : SpellsNumber n t) :
    ∃ c u, t = c :: u ∧ (c.isDigit = true ∨ c = '-') := by
  cases h with
  | natural hds =>
    obtain ⟨c, u, hu, hc⟩ := hds.head []
    exact ⟨c, u, by rw [← hu, List.append_nil], hc⟩
  | broken hds _ _ _ => exact hds.head _
  | negative _ _ _ => exact ⟨'-', _, rfl, .inr rfl⟩

theorem spells_head {j : Json} {t : List Char} (h : Spells j t) : ∃ c u, t = c :: u ∧ isSpace c = false ∧ c ≠ ']' := by
  cases h with
  | number h =>
    obtain ⟨c, u, rfl, hc⟩ := spellsNumber_head h
    exact ⟨c, u, rfl, isSpace_of_number hc, ne_of_number hc rfl (by decide)⟩
  | text h =>
    obtain ⟨u, rfl, -⟩ := quoted?_spelled h
    exact ⟨_, u, rfl, rfl, by decide⟩
  | _ => exact ⟨_, _, rfl, rfl, by decide⟩

theorem reads_of {j : Json} {t : List Char} (hne : t ≠ []) (h : ∀ (n : Nat) (rest : List Char),
    2 * t.length ≤ n + 1 → Ends rest → value? (n + 1) (t ++ rest) = some (j, rest)) : Reads j t := by
  intro n rest hn hrest
  have hlength := List.length_pos_of_ne_nil hne
  cases n with
  | zero => omega
  | succ n => exact h n rest hn hrest

theorem value?_number {c : Char} (hc : c.isDigit = true ∨ c = '-') (n : Nat) (s : List Char) :
    value? (n + 1) (c :: s) = (number? (c :: s)).map fun r => (.number r.1, r.2) := by
  unfold value?
  rw [skipSpace_cons (isSpace_of_number hc)]
  -- every other branch asks for a character that starts no number
  split
  case h_7 => rfl
  all_goals
    rename_i e
    cases e
    exact absurd hc (by decide)

theorem reads_number {k : Option Nat} {t : List Char} (h : SpellsNumber k t) : Reads (.number k) t := by
  obtain ⟨c, u, rfl, hc⟩ := spellsNumber_head h
  refine reads_of (by simp) fun n rest _ hrest => ?_
  have hnumber := number?_spelled h hrest
  rw [List.cons_append] at hnumber ⊢
  rw [value?_number hc, hnumber]
  rfl

theorem reads_text {s : Option String} {t : List Char} (h : SpellsText s t) : Reads (.text s) t := by
  obtain ⟨u, rfl, hread⟩ := quoted?_spelled h
  refine reads_of (by simp) fun n rest _ _ => ?_
  have htext : value? (n + 1) ('\x22' :: (u ++ rest)) = (quoted? (u ++ rest)).map fun r => (.text r.1, r.2) := rfl
  rw [List.cons_append, htext, hread]
  rfl

/-! ### Items -/

theorem value?_array {c : Char} {s t : List Char} (hs : skipSpace s = c :: t) (hc : c ≠ ']') (n : Nat) :
    value? (n + 1) ('[' :: s) = (items? n (c :: t)).map fun r => (.array r.1, r.2) := by
  unfold value?
  rw [skipSpace_cons rfl]
  simp only [hs]
  split
  · rename_i e
    cases e
    exact absurd rfl hc
  · rfl

theorem reads_noItems {a : List Char} (ha : IsSpaces a) : Reads (.array []) ('[' :: (a ++ [']'])) := by
  refine reads_of (by simp) fun n rest _ _ => ?_
  have hclose : skipSpace (a ++ ([']'] ++ rest)) = ']' :: rest := by rw [skipSpace_append ha]; rfl
  rw [List.cons_append, List.append_assoc, value?, skipSpace_cons rfl]
  simp only [hclose]

theorem spellsItems_head {vs : List Json} {t : List Char} (h : SpellsItems vs t) (rest : List Char) :
    ∃ c u, skipSpace (t ++ rest) = c :: u ∧ isSpace c = false ∧ c ≠ ']' := by
  cases h with
  | last ha ht _ =>
    obtain ⟨c, u, rfl, hc, hclose⟩ := spells_head ht
    exact ⟨c, _, by rw [List.append_assoc, skipSpace_append ha]; exact skipSpace_cons hc _, hc, hclose⟩
  | cons ha ht _ _ =>
    obtain ⟨c, u, rfl, hc, hclose⟩ := spells_head ht
    exact ⟨c, _, by rw [List.append_assoc, skipSpace_append ha]; exact skipSpace_cons hc _, hc, hclose⟩

theorem reads_items {vs : List Json} {t : List Char} (h : SpellsItems vs t) (hread : ReadsItems vs t) :
    Reads (.array vs) ('[' :: (t ++ [']'])) := by
  refine reads_of (by simp) fun n rest hn _ => ?_
  obtain ⟨c, u, hu, hc, hclose⟩ := spellsItems_head h (']' :: rest)
  simp only [List.length_cons, List.length_append, List.length_nil] at hn
  have hitems := hread n rest (by omega)
  rw [items?_congr (hu.trans (skipSpace_cons hc u).symm)] at hitems
  rw [List.cons_append, List.append_assoc, List.singleton_append, value?_array hu hclose, hitems]
  rfl

/-- The item at the front is read, up to the mark behind it. -/
theorem items?_cons {v : Json} {a t b : List Char} (ha : IsSpaces a) (hv : Reads v t) (hb : IsSpaces b) {n : Nat}
    (hn : 2 * t.length ≤ n) {rest : List Char} (hrest : Ends rest) :
    items? (n + 1) (a ++ (t ++ (b ++ rest))) =
      match skipSpace rest with
      | ']' :: s => some ([v], s)
      | ',' :: s => (items? n s).map fun r => (v :: r.1, r.2)
      | _ => none := by
  rw [items?, value?_congr (skipSpace_append ha _), hv n _ hn (ends_append hb hrest), ← skipSpace_append hb rest]
  rfl

theorem readsItems_last {v : Json} {a t b : List Char} (ha : IsSpaces a) (hv : Reads v t) (hb : IsSpaces b) :
    ReadsItems [v] (a ++ (t ++ b)) := by
  intro n rest hn
  cases n with
  | zero => cases hn
  | succ n =>
    simp only [List.length_append] at hn
    rw [List.append_assoc, List.append_assoc, items?_cons ha hv hb (by omega) (ends_cons (by simp) rest),
      skipSpace_cons rfl]
    rfl

theorem readsItems_cons {v : Json} {vs : List Json} {a t b u : List Char} (ha : IsSpaces a) (hv : Reads v t)
    (hb : IsSpaces b) (hvs : ReadsItems vs u) : ReadsItems (v :: vs) (a ++ (t ++ (b ++ ',' :: u))) := by
  intro n rest hn
  cases n with
  | zero => cases hn
  | succ n =>
    -- the item takes one step, and its comma pays for the next
    simp only [List.length_append, List.length_cons] at hn
    simp only [List.append_assoc, List.cons_append]
    rw [items?_cons ha hv hb (by omega) (ends_cons (by simp) _), skipSpace_cons rfl]
    simp only
    rw [hvs n rest (by omega)]
    rfl

/-! ### Members -/

theorem value?_object {c : Char} {s t : List Char} (hs : skipSpace s = c :: t) (hc : c ≠ '}') (n : Nat) :
    value? (n + 1) ('{' :: s) = (members? n (c :: t)).map fun r => (.object r.1, r.2) := by
  unfold value?
  rw [skipSpace_cons rfl]
  simp only [hs]
  split
  · rename_i e
    cases e
    exact absurd rfl hc
  · rfl

theorem reads_noMembers {a : List Char} (ha : IsSpaces a) : Reads (.object []) ('{' :: (a ++ ['}'])) := by
  refine reads_of (by simp) fun n rest _ _ => ?_
  have hclose : skipSpace (a ++ (['}'] ++ rest)) = '}' :: rest := by rw [skipSpace_append ha]; rfl
  rw [List.cons_append, List.append_assoc, value?, skipSpace_cons rfl]
  simp only [hclose]

theorem spellsMembers_head {ms : List (Option String × Json)} {t : List Char} (h : SpellsMembers ms t)
    (rest : List Char) : ∃ u, skipSpace (t ++ rest) = '\x22' :: u := by
  cases h with
  | last ha hs _ _ _ _ =>
    obtain ⟨u, rfl, -⟩ := quoted?_spelled hs
    exact ⟨_, by rw [List.append_assoc, skipSpace_append ha]; exact skipSpace_cons rfl _⟩
  | cons ha hs _ _ _ _ _ =>
    obtain ⟨u, rfl, -⟩ := quoted?_spelled hs
    exact ⟨_, by rw [List.append_assoc, skipSpace_append ha]; exact skipSpace_cons rfl _⟩

theorem reads_members {ms : List (Option String × Json)} {t : List Char} (h : SpellsMembers ms t)
    (hread : ReadsMembers ms t) : Reads (.object ms) ('{' :: (t ++ ['}'])) := by
  refine reads_of (by simp) fun n rest hn _ => ?_
  obtain ⟨u, hu⟩ := spellsMembers_head h ('}' :: rest)
  simp only [List.length_cons, List.length_append, List.length_nil] at hn
  have hmembers := hread n rest (by omega)
  rw [members?_congr (hu.trans (skipSpace_cons rfl u).symm)] at hmembers
  rw [List.cons_append, List.append_assoc, List.singleton_append, value?_object hu (by decide), hmembers]
  rfl

/-- The member at the front is read, up to the mark behind it. -/
theorem members?_cons {k : Option String} {v : Json} {a s b c t d : List Char} (ha : IsSpaces a) (hk : SpellsText k s)
    (hb : IsSpaces b) (hc : IsSpaces c) (hv : Reads v t) (hd : IsSpaces d) {n : Nat} (hn : 2 * t.length ≤ n)
    {rest : List Char} (hrest : Ends rest) :
    members? (n + 1) (a ++ (s ++ (b ++ ':' :: (c ++ (t ++ (d ++ rest)))))) =
      match skipSpace rest with
      | '}' :: s => some ([(k, v)], s)
      | ',' :: s => (members? n s).map fun r => ((k, v) :: r.1, r.2)
      | _ => none := by
  obtain ⟨u, rfl, hread⟩ := quoted?_spelled hk
  rw [members?, skipSpace_append ha, List.cons_append, skipSpace_cons rfl]
  simp only [hread, Option.bind_some]
  rw [skipSpace_append hb, skipSpace_cons rfl]
  simp only
  rw [value?_congr (skipSpace_append hc _), hv n _ hn (ends_append hd hrest), ← skipSpace_append hd rest]
  rfl

theorem readsMembers_last {k : Option String} {v : Json} {a s b c t d : List Char} (ha : IsSpaces a)
    (hk : SpellsText k s) (hb : IsSpaces b) (hc : IsSpaces c) (hv : Reads v t) (hd : IsSpaces d) :
    ReadsMembers [(k, v)] (a ++ (s ++ (b ++ ':' :: (c ++ (t ++ d))))) := by
  intro n rest hn
  cases n with
  | zero => cases hn
  | succ n =>
    simp only [List.length_append, List.length_cons] at hn
    simp only [List.append_assoc, List.cons_append]
    rw [members?_cons ha hk hb hc hv hd (by omega) (ends_cons (by simp) rest), skipSpace_cons rfl]
    rfl

theorem readsMembers_cons {k : Option String} {v : Json} {ms : List (Option String × Json)} {a s b c t d u : List Char}
    (ha : IsSpaces a) (hk : SpellsText k s) (hb : IsSpaces b) (hc : IsSpaces c) (hv : Reads v t) (hd : IsSpaces d)
    (hms : ReadsMembers ms u) :
    ReadsMembers ((k, v) :: ms) (a ++ (s ++ (b ++ ':' :: (c ++ (t ++ (d ++ ',' :: u)))))) := by
  intro n rest hn
  cases n with
  | zero => cases hn
  | succ n =>
    simp only [List.length_append, List.length_cons] at hn
    simp only [List.append_assoc, List.cons_append]
    rw [members?_cons ha hk hb hc hv hd (by omega) (ends_cons (by simp) _), skipSpace_cons rfl]
    simp only
    rw [hms n rest (by omega)]
    rfl

/-! ### All values -/

mutual

theorem reads {j : Json} {t : List Char} : Spells j t → Reads j t
  | .null => reads_of (by simp) fun _ _ _ _ => rfl
  | .true => reads_of (by simp) fun _ _ _ _ => rfl
  | .false => reads_of (by simp) fun _ _ _ _ => rfl
  | .number h => reads_number h
  | .text h => reads_text h
  | .noItems ha => reads_noItems ha
  | .items h => reads_items h (readsItems h)
  | .noMembers ha => reads_noMembers ha
  | .members h => reads_members h (readsMembers h)

theorem readsItems {vs : List Json} {t : List Char} : SpellsItems vs t → ReadsItems vs t
  | .last ha ht hb => readsItems_last ha (reads ht) hb
  | .cons ha ht hb hu => readsItems_cons ha (reads ht) hb (readsItems hu)

theorem readsMembers {ms : List (Option String × Json)} {t : List Char} : SpellsMembers ms t → ReadsMembers ms t
  | .last ha hs hb hc ht hd => readsMembers_last ha hs hb hc (reads ht) hd
  | .cons ha hs hb hc ht hd hu => readsMembers_cons ha hs hb hc (reads ht) hd (readsMembers hu)

end

/-- The spellings of a value with blanks around it. -/
inductive SpellsAlone (j : Json) : List Char → Prop
  | blanks {a t b : List Char} : IsSpaces a → Spells j t → IsSpaces b → SpellsAlone j (a ++ (t ++ b))

/-- **Spellings are read.** Each spelling of a value is read as that value. -/
theorem SpellsAlone.parse? {j : Json} {s : List Char} (h : SpellsAlone j s) : Json.parse? s = some j := by
  obtain @⟨a, t, b, ha, ht, hb⟩ := h
  have hend : Ends b := by
    have hnil : Ends [] := fun c hc => by cases hc
    simpa using ends_append hb hnil
  have hblank : (skipSpace b).isEmpty = true := by
    have hskip := skipSpace_append hb []
    rw [List.append_nil] at hskip
    rw [hskip]
    rfl
  simp only [Json.parse?, List.length_append]
  rw [value?_congr (skipSpace_append ha _), reads ht _ b (by omega) hend]
  exact if_pos hblank

/-! ## Writing -/

theorem isSpaces_nil : IsSpaces [] := fun _ h => by cases h

theorem isSpaces_newline (depth : Option Nat) : IsSpaces (newline depth) := by
  cases depth with
  | none => exact isSpaces_nil
  | some d =>
    intro c hc
    rcases List.mem_cons.mp hc with rfl | hc
    · rfl
    · rw [List.eq_of_mem_replicate hc]
      rfl

theorem exists_colon (depth : Option Nat) : ∃ c, IsSpaces c ∧ colon depth = ':' :: c := by
  cases depth with
  | none => exact ⟨[], isSpaces_nil, rfl⟩
  | some d => exact ⟨[' '], by simp [IsSpaces, isSpace], rfl⟩

theorem spellsItems_write (depth outer : Option Nat) {v : Json} {vs : List Json}
    (h : ∀ w ∈ v :: vs, Spells w (write depth w)) :
    SpellsItems (v :: vs) (newline depth ++ (write depth v ++ (writeItems depth vs ++ newline outer))) := by
  have hv := h v List.mem_cons_self
  induction vs generalizing v with
  | nil => exact .last (isSpaces_newline depth) hv (isSpaces_newline outer)
  | cons w vs ih =>
    have hvs : ∀ x ∈ w :: vs, Spells x (write depth x) := fun x hx => h x (List.mem_cons_of_mem v hx)
    have hitems := SpellsItems.cons (isSpaces_newline depth) hv isSpaces_nil (ih hvs (hvs w List.mem_cons_self))
    simpa [writeItems] using hitems

theorem spellsMembers_write (depth outer : Option Nat) {m : Option String × Json} {ms : List (Option String × Json)}
    (h : ∀ x ∈ m :: ms, Spells x.2 (write depth x.2)) :
    SpellsMembers (m :: ms) (newline depth ++ (stringText m.1 ++ (colon depth ++ (write depth m.2 ++
      (writeMembers depth ms ++ newline outer))))) := by
  have hm := h m List.mem_cons_self
  obtain ⟨c, hc, hcolon⟩ := exists_colon depth
  have hname := spellsText_stringText m.1
  rw [hcolon]
  induction ms generalizing m with
  | nil => exact .last (isSpaces_newline depth) hname isSpaces_nil hc hm (isSpaces_newline outer)
  | cons l ms ih =>
    have hms : ∀ x ∈ l :: ms, Spells x.2 (write depth x.2) := fun x hx => h x (List.mem_cons_of_mem m hx)
    have hmembers := SpellsMembers.cons (isSpaces_newline depth) hname isSpaces_nil hc hm isSpaces_nil
      (ih hms (hms l List.mem_cons_self) (spellsText_stringText l.1))
    simpa [writeMembers, hcolon] using hmembers

theorem colon_deeper (depth : Option Nat) : colon (deeper depth) = colon depth := by cases depth <;> rfl

theorem spells_write (depth : Option Nat) : ∀ j : Json, Spells j (write depth j)
  | .null => .null
  | .bool true => .true
  | .bool false => .false
  | .number n => .number (spellsNumber_naturalText n)
  | .text s => .text (spellsText_stringText s)
  | .array [] => .noItems isSpaces_nil
  | .array (v :: vs) => by
    have hitems := spellsItems_write (deeper depth) depth fun w (_ : w ∈ v :: vs) => spells_write (deeper depth) w
    simpa [write] using Spells.items hitems
  | .object [] => .noMembers isSpaces_nil
  | .object (m :: ms) => by
    have hmembers := spellsMembers_write (deeper depth) depth fun l (_ : l ∈ m :: ms) => spells_write (deeper depth) l.2
    simpa [write, colon_deeper] using Spells.members hmembers
termination_by j => sizeOf j
decreasing_by
  · have hsize := List.sizeOf_lt_of_mem ‹w ∈ v :: vs›
    rw [Json.array.sizeOf_spec]
    omega
  · have hsize := List.sizeOf_lt_of_mem ‹l ∈ m :: ms›
    have hpair : sizeOf l = 1 + sizeOf l.1 + sizeOf l.2 := by cases l; rfl
    rw [Json.object.sizeOf_spec]
    omega

/-- **Reading undoes writing.** A text that a value is written as, at any depth, is read as that value. -/
theorem parse?_write (depth : Option Nat) (j : Json) : parse? (write depth j) = some j := by
  have hread := (SpellsAlone.blanks isSpaces_nil (spells_write depth j) isSpaces_nil).parse?
  rwa [List.nil_append, List.append_nil] at hread

end MigrationLint.Json
