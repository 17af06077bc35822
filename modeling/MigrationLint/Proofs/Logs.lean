import MigrationLint.Policy.Load
import MigrationLint.Scan.Directory

/-!
# Computations over a tree

A computation may leave every tree as it is (`ReadsOnly`). With a log it comes to a value, adds events to
the log and leaves a tree (`Ends`); where it logs nothing it does the same as without a log (`Silent`).
-/

namespace MigrationLint

section
variable {α β : Type}

/-! ## Reading -/

/-- A computation that leaves every tree as it is. -/
def ReadsOnly (x : StateM FileTree α) : Prop := ∀ t, (x.run t).2 = t

variable {x : StateM FileTree α}

theorem ReadsOnly.run_eq (h : ReadsOnly x) (t : FileTree) : x.run t = ((x.run t).1, t) := Prod.ext rfl (h t)

theorem ReadsOnly.run_bind (h : ReadsOnly x) (f : α → StateM FileTree β) (t : FileTree) :
    (x >>= f).run t = (f (x.run t).1).run t := by
  rw [StateT.run_bind, h.run_eq]
  rfl

theorem readsOnly_pure (a : α) : ReadsOnly (pure a) := fun _ => rfl

theorem ReadsOnly.bind {f : α → StateM FileTree β} (hx : ReadsOnly x) (hf : ∀ a, ReadsOnly (f a)) :
    ReadsOnly (x >>= f) :=
  fun t => (hf _ _).trans (hx t)

end

namespace Files

theorem run_read (path : String) (t : FileTree) : (ofTree.read path).run t = (t.read path, t) := rfl

theorem readsOnly_read (path : String) : ReadsOnly (ofTree.read path) := fun _ => rfl

theorem run_write (path : String) (bytes : ByteArray) (t : FileTree) :
    (ofTree.write path bytes).run t =
      match t.write path bytes with
      | .ok t' => (.ok (), t')
      | .error e => (.error e, t) := by
  rw [ofTree, StateT.run_bind, StateT.run_get, pure_bind]
  dsimp only
  generalize t.write path bytes = written
  cases written <;> rfl

theorem readsOnly_listing (dir : String) : ReadsOnly (ofTree.listing dir) := fun _ => rfl

theorem readsOnly_depth : ReadsOnly ofTree.depth := fun _ => rfl

theorem readsOnly_readText (path : String) : ReadsOnly (ofTree.readText path) :=
  (readsOnly_read path).bind fun _ => readsOnly_pure _

end Files

theorem readsOnly_load (refusal : String → String) (path : String) (above : Settings) :
    ReadsOnly (Policy.load .ofTree refusal path above) := by
  refine (Files.readsOnly_readText path).bind fun text => ?_
  cases text <;> exact readsOnly_pure _

theorem readsOnly_readSource (path : String) : ReadsOnly (readSource .ofTree path) := by
  refine (Files.readsOnly_readText path).bind fun text => ?_
  cases text <;> exact readsOnly_pure _

theorem readsOnly_readSources (paths : List String) : ReadsOnly (readSources .ofTree paths) := by
  induction paths with
  | nil => exact readsOnly_pure _
  | cons path paths ih =>
    refine (readsOnly_readSource path).bind fun source => ?_
    cases source with
    | error e => exact readsOnly_pure _
    | ok s => exact ih.bind fun _ => readsOnly_pure _

/-! ## Scanning without a log -/

theorem discover_run (t : FileTree) (dir : String) :
    (discover .ofTree dir).run t = ((t.listing dir).map (Listing.migrations dir), t) := by
  have hlisting : (Files.ofTree.listing dir).run t = (t.listing dir, t) := rfl
  rw [discover, (Files.readsOnly_listing dir).run_bind, hlisting]
  cases t.listing dir <;> rfl

theorem readsOnly_discover (dir : String) : ReadsOnly (discover .ofTree dir) := fun t => by rw [discover_run]

theorem reportSources_run (p : Policy) (timestamp : String) (sources : List Source) (t : FileTree) :
    (reportSources .ofTree p timestamp sources).run t = (scanSources p timestamp sources, t) := by
  have hlog : ∀ l : List Source, l.forM (fun s => Files.ofTree.log (s.event p)) = pure () := by
    intro l
    induction l with
    | nil => rfl
    | cons s l ih => exact ih
  rw [reportSources, hlog, pure_bind]
  rfl

theorem scanDirectory_run (p : Policy) (timestamp dir : String) (t : FileTree) :
    (scanDirectory .ofTree p timestamp dir).run t =
      (match (t.listing dir).map (Listing.migrations dir) with
        | .error e => .error e
        | .ok [] => .error (.noSqlFiles dir)
        | .ok paths => ((readSources .ofTree paths).run t).1.map (scanSources p timestamp), t) := by
  rw [scanDirectory, (readsOnly_discover dir).run_bind, discover_run]
  dsimp only
  cases (t.listing dir).map (Listing.migrations dir) with
  | error e => rfl
  | ok paths =>
    cases paths with
    | nil => rfl
    | cons path paths =>
      dsimp only
      rw [(readsOnly_readSources _).run_bind]
      cases ((readSources .ofTree (path :: paths)).run t).1 with
      | error e => rfl
      | ok sources =>
        dsimp only
        rw [StateT.run_bind, reportSources_run]
        rfl

theorem readsOnly_scanDirectory (p : Policy) (timestamp dir : String) :
    ReadsOnly (scanDirectory .ofTree p timestamp dir) := fun t => by rw [scanDirectory_run]

/-! ## Logging -/

section
variable {α β : Type} {x : StateT (List Event) (StateM FileTree) α}

/-- Whatever the log holds, the computation comes to the value, adds the events and leaves the tree `t'`. -/
def Ends (x : StateT (List Event) (StateM FileTree) α) (t : FileTree) (a : α) (events : List Event) (t' : FileTree) :
    Prop :=
  ∀ log, (x.run log).run t = ((a, log ++ events), t')

theorem ends_pure (a : α) (t : FileTree) : Ends (pure a) t a [] t := by
  intro log
  rw [List.append_nil]
  rfl

theorem Ends.bind {f : α → StateT (List Event) (StateM FileTree) β} {t t' t'' : FileTree} {a : α} {b : β}
    {events events' : List Event} (hx : Ends x t a events t') (hf : Ends (f a) t' b events' t'') :
    Ends (x >>= f) t b (events ++ events') t'' := by
  intro log
  rw [StateT.run_bind, StateT.run_bind, hx, ← List.append_assoc]
  exact hf _

theorem Ends.bind_silent {f : α → StateT (List Event) (StateM FileTree) β} {t t' t'' : FileTree} {a : α} {b : β}
    {events : List Event} (hx : Ends x t a events t') (hf : Ends (f a) t' b [] t'') :
    Ends (x >>= f) t b events t'' := by
  rw [← List.append_nil events]
  exact hx.bind hf

theorem ends_log (e : Event) (t : FileTree) : Ends (Files.ofTree.logged.log e) t () [e] t := fun _ => rfl

theorem ends_logs (event : α → Event) (l : List α) (t : FileTree) :
    Ends (l.forM fun a => Files.ofTree.logged.log (event a)) t () (l.map event) t := by
  induction l with
  | nil => exact ends_pure _ t
  | cons a l ih => exact (ends_log _ t).bind ih

/-- With a log the computation does what the other one does without, and logs nothing. -/
def Silent (x : StateT (List Event) (StateM FileTree) α) (y : StateM FileTree α) : Prop :=
  ∀ t, Ends x t (y.run t).1 [] (y.run t).2

theorem silent_lift (y : StateM FileTree α) : Silent (StateT.lift y) y := by
  intro t log
  rw [List.append_nil]
  rfl

theorem silent_pure (a : α) : Silent (pure a) (pure a) := ends_pure a

theorem Silent.bind {y : StateM FileTree α} {f : α → StateT (List Event) (StateM FileTree) β}
    {g : α → StateM FileTree β} (hx : Silent x y) (hf : ∀ a, Silent (f a) (g a)) : Silent (x >>= f) (y >>= g) :=
  fun t => (hx t).bind (hf _ _)

theorem Silent.ends {y : StateM FileTree α} (h : Silent x y) (hy : ReadsOnly y) (t : FileTree) :
    Ends x t (y.run t).1 [] t := by
  have hends := h t
  rwa [hy t] at hends

end

theorem silent_readText (path : String) : Silent (Files.ofTree.logged.readText path) (Files.ofTree.readText path) :=
  (silent_lift _).bind fun _ => silent_pure _

theorem silent_load (refusal : String → String) (path : String) (above : Settings) :
    Silent (Policy.load Files.ofTree.logged refusal path above) (Policy.load .ofTree refusal path above) := by
  refine (silent_readText path).bind fun text => ?_
  cases text <;> exact silent_pure _

theorem silent_readSource (path : String) :
    Silent (readSource Files.ofTree.logged path) (readSource .ofTree path) := by
  refine (silent_readText path).bind fun text => ?_
  cases text <;> exact silent_pure _

theorem silent_readSources (paths : List String) :
    Silent (readSources Files.ofTree.logged paths) (readSources .ofTree paths) := by
  induction paths with
  | nil => exact silent_pure _
  | cons path paths ih =>
    refine (silent_readSource path).bind fun source => ?_
    cases source with
    | error e => exact silent_pure _
    | ok s => exact ih.bind fun _ => silent_pure _

/-! ## Scanning with a log -/

/-- What a scan of sources logs. -/
def sourceEvents (p : Policy) (timestamp : String) (sources : List Source) : List Event :=
  (inPathOrder sources).map (Source.event p) ++ [(scanSources p timestamp sources).event]

theorem ends_reportSources (p : Policy) (timestamp : String) (sources : List Source) (t : FileTree) :
    Ends (reportSources Files.ofTree.logged p timestamp sources) t (scanSources p timestamp sources)
      (sourceEvents p timestamp sources) t :=
  (ends_logs _ _ t).bind ((ends_log _ t).bind (ends_pure _ t))

/-- What a scan of a directory logs, as far as it comes. -/
def scanEvents (t : FileTree) (p : Policy) (timestamp dir : String) : List Event :=
  match (t.listing dir).map (Listing.migrations dir) with
  | .error _ => []
  | .ok [] => [.filesDiscovered dir 0]
  | .ok paths => .filesDiscovered dir paths.length ::
      match ((readSources .ofTree paths).run t).1 with
      | .error _ => []
      | .ok sources => sourceEvents p timestamp sources

theorem ends_discover (dir : String) (t : FileTree) :
    Ends (discover Files.ofTree.logged dir) t ((t.listing dir).map (Listing.migrations dir))
      (match (t.listing dir).map (Listing.migrations dir) with
        | .error _ => []
        | .ok paths => [.filesDiscovered dir paths.length]) t := by
  have hlisting : Ends (Files.ofTree.logged.listing dir) t (t.listing dir) [] t := silent_lift _ t
  cases hfound : t.listing dir with
  | error e =>
    rw [hfound] at hlisting
    exact hlisting.bind (ends_pure _ t)
  | ok found =>
    rw [hfound] at hlisting
    exact hlisting.bind ((ends_log _ t).bind (ends_pure _ t))

theorem ends_scanDirectory (p : Policy) (timestamp dir : String) (t : FileTree) :
    Ends (scanDirectory Files.ofTree.logged p timestamp dir) t ((scanDirectory .ofTree p timestamp dir).run t).1
      (scanEvents t p timestamp dir) t := by
  have hdiscover := ends_discover dir t
  rw [scanDirectory_run, scanEvents]
  generalize (t.listing dir).map (Listing.migrations dir) = found at hdiscover ⊢
  cases found with
  | error e => exact hdiscover.bind (ends_pure _ t)
  | ok paths =>
    cases paths with
    | nil => exact hdiscover.bind (ends_pure _ t)
    | cons path paths =>
      refine hdiscover.bind ?_
      have hread := (silent_readSources (path :: paths)).ends (readsOnly_readSources _) t
      dsimp only
      generalize ((readSources .ofTree (path :: paths)).run t).1 = sources at hread ⊢
      cases sources with
      | error e => exact hread.bind (ends_pure _ t)
      | ok sources => exact hread.bind ((ends_reportSources p timestamp sources t).bind_silent (ends_pure _ t))

end MigrationLint
