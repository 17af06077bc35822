import MigrationLint.Cli.Run
import MigrationLint.Proofs.Logs
import MigrationLint.Proofs.Names
import MigrationLint.Proofs.Trees

/-!
# Runs and what they tell

The policy, the directory and the report are the stages of a scan, and the first that fails is the last
(`Stages`). What a run tells, its exit code and the report it writes all follow from what the stages come to
(`run_outcome`). A log that is asked for stands before the rest (`run_outcome_logged`). The environment of a
run is that of the process with the nearest environment file (`environmentOf_nearest`).
-/

namespace MigrationLint

/-! ## Filters -/

/-- A filter that is a level treats all events alike. -/
theorem LogFilter.read?_of_level {s : String} {n : Nat} (hcut : ',' ∉ s.toList) (h : level? s.toList = some n) :
    read? s = some fun _ => decide (debugLevel ≤ n) := by
  have hne : s.toList ≠ [] := by
    intro e
    have hnone : level? [] = none := by decide
    rw [e, hnone] at h
    cases h
  have hpieces : (Text.pieces (· == ',') s.toList).filter (!·.isEmpty) = [s.toList] := by
    rw [Text.pieces_of_not_mem hcut]
    exact List.filter_cons_of_pos (by simp [hne])
  have hitem : item? s.toList = some ⟨[], n⟩ := by rw [item?, h]
  rw [read?, hpieces, List.mapM_cons, hitem]
  rfl

namespace Cli

/-! ## Environments -/

theorem readsOnly_findEnvironment (above : Nat) (folder : String) :
    ReadsOnly (findEnvironment .ofTree above folder) := by
  induction above generalizing folder with
  | zero => exact (Files.readsOnly_read _).bind fun _ => readsOnly_pure _
  | succ above ih =>
    refine (Files.readsOnly_read _).bind fun found => ?_
    cases found with
    | ok bytes => exact readsOnly_pure _
    | error e =>
      dsimp only
      split
      · exact ih _
      · exact readsOnly_pure _

/-- The environment of a run over a tree. -/
def environmentOf (t : FileTree) (env : Environment) : Environment := ((loadEnvironment .ofTree env).run t).1

theorem readsOnly_loadEnvironment (env : Environment) : ReadsOnly (loadEnvironment .ofTree env) := by
  refine ReadsOnly.bind ?_ fun _ => readsOnly_pure _
  exact Files.readsOnly_depth.bind fun _ => readsOnly_findEnvironment _ _

theorem loadEnvironment_run (t : FileTree) (env : Environment) :
    (loadEnvironment .ofTree env).run t = (environmentOf t env, t) := (readsOnly_loadEnvironment env).run_eq t

/-- The folder that lies so many folders above. -/
def upward (k : Nat) : String := String.join (List.replicate k "../")

theorem upward_succ (k : Nat) : upward (k + 1) = "../" ++ upward k := by
  rw [upward, List.replicate_succ, String.join_cons, upward]

/-- A search goes on past a folder that has no environment file. -/
def PassesOver (t : FileTree) (folder : String) : Prop :=
  t.read (folder ++ ".env") = .error .notFound ∨ t.read (folder ++ ".env") = .error .isDirectory

/-- The nearest environment file is found, wherever the search begins. -/
theorem findEnvironment_nearest {t : FileTree} {bytes : ByteArray} {above k : Nat} {folder : String} (hk : k ≤ above)
    (hpassed : ∀ j < k, PassesOver t (folder ++ upward j))
    (hfound : t.read (folder ++ upward k ++ ".env") = .ok bytes) :
    (findEnvironment .ofTree above folder).run t = (some bytes, t) := by
  induction k generalizing above folder with
  | zero =>
    have hread : t.read (folder ++ ".env") = .ok bytes := by simpa [upward] using hfound
    cases above <;>
      · rw [findEnvironment, (Files.readsOnly_read _).run_bind, Files.run_read, hread]
        rfl
  | succ k ih =>
    obtain ⟨above, rfl⟩ := Nat.exists_eq_add_one_of_ne_zero (Nat.ne_zero_of_lt hk)
    have hup : ∀ j, folder ++ "../" ++ upward j = folder ++ upward (j + 1) := fun j => by
      rw [upward_succ, String.append_assoc]
    have hrest : (findEnvironment .ofTree above (folder ++ "../")).run t = (some bytes, t) := by
      refine ih (Nat.le_of_succ_le_succ hk) (fun j hj => ?_) (by rwa [hup])
      rw [hup]
      exact hpassed (j + 1) (Nat.succ_lt_succ hj)
    have hpass : PassesOver t folder := by simpa [upward] using hpassed 0 k.succ_pos
    rw [findEnvironment, (Files.readsOnly_read _).run_bind, Files.run_read]
    obtain hread | hread := hpass <;>
      · rw [hread]
        exact hrest

/-- The nearest environment file above the current folder counts. -/
theorem environmentOf_nearest {t : FileTree} {bytes : ByteArray} {k : Nat} (hk : k ≤ t.cwd.length)
    (hpassed : ∀ j < k, PassesOver t (upward j)) (hfound : t.read (upward k ++ ".env") = .ok bytes)
    (env : Environment) : environmentOf t env = env.load bytes := by
  have hfile : (environmentFile .ofTree).run t = (some bytes, t) := by
    rw [environmentFile, Files.readsOnly_depth.run_bind]
    refine findEnvironment_nearest hk (fun j hj => ?_) ?_
    · simpa using hpassed j hj
    · simpa using hfound
  rw [environmentOf, loadEnvironment, StateT.run_bind, hfile]
  rfl

/-- A file two folders up, behind a folder of the same name. -/
example :
    let t : FileTree :=
      ⟨[([".env"], .file "MIGRATION_GUARD_PREFIX=cb_".toUTF8), (["a"], .folder), (["a", ".env"], .folder),
        (["a", "b"], .folder)], ["a", "b"]⟩
    (environmentOf t []).get? "MIGRATION_GUARD_PREFIX" = some "cb_" := by
  decide +kernel

theorem environmentOf_of_read {t : FileTree} {bytes : ByteArray} (h : t.read ".env" = .ok bytes) (env : Environment) :
    environmentOf t env = env.load bytes :=
  environmentOf_nearest t.cwd.length.zero_le (by simp) (by simpa [upward] using h) env

/-! ## Stages -/

section
variable (t : FileTree) (env : Environment) (refusal : String → String) (timestamp : String) (o : Options)

def policyStage : Except PolicyError Policy × FileTree :=
  (Policy.load .ofTree refusal o.config (.ofLookup env.get?)).run t

def scanStage (p : Policy) : Except ScanError Report × FileTree :=
  (scanDirectory .ofTree p timestamp o.dir).run t

/-- What is logged of a policy and of the scan under it. -/
def startEvents (p : Policy) : List Event := .policyResolved o.config p :: scanEvents t p timestamp o.dir

/-- What the stages of a scan come to, what they log, and the tree they leave. -/
inductive Stages : Except Failure Report → List Event → FileTree → Prop
  | noPolicy {e : PolicyError} : policyStage t env refusal o = (.error e, t) → Stages (.error (.policy e)) [] t
  | noScan {p : Policy} {e : ScanError} :
      policyStage t env refusal o = (.ok p, t) → scanStage t timestamp o p = (.error e, t) →
        Stages (.error (.scan e)) (startEvents t timestamp o p) t
  | unreported {p : Policy} {r : Report} :
      policyStage t env refusal o = (.ok p, t) → scanStage t timestamp o p = (.ok r, t) → o.report = none →
        Stages (.ok r) (startEvents t timestamp o p ++ [.violationsCounted r.countsByCode]) t
  | noReport {p : Policy} {r : Report} {path : String} {e : FileError} :
      policyStage t env refusal o = (.ok p, t) → scanStage t timestamp o p = (.ok r, t) → o.report = some path →
        t.write path r.text.toUTF8 = .error e →
        Stages (.error (.report path e)) (startEvents t timestamp o p ++ [.violationsCounted r.countsByCode]) t
  | reported {p : Policy} {r : Report} {path : String} {t' : FileTree} :
      policyStage t env refusal o = (.ok p, t) → scanStage t timestamp o p = (.ok r, t) → o.report = some path →
        t.write path r.text.toUTF8 = .ok t' →
        Stages (.ok r)
          (startEvents t timestamp o p ++ [.violationsCounted r.countsByCode, .reportSaved path]) t'

/-- One of the stages is the last. -/
theorem exists_stages : ∃ result events t', Stages t env refusal timestamp o result events t' := by
  have hpolicy : policyStage t env refusal o = _ := (readsOnly_load refusal o.config (.ofLookup env.get?)).run_eq t
  cases hp : ((Policy.load .ofTree refusal o.config (.ofLookup env.get?)).run t).1 with
  | error e =>
    rw [hp] at hpolicy
    exact ⟨_, _, _, .noPolicy hpolicy⟩
  | ok p =>
    rw [hp] at hpolicy
    have hscan : scanStage t timestamp o p = _ := (readsOnly_scanDirectory p timestamp o.dir).run_eq t
    cases hr : ((scanDirectory .ofTree p timestamp o.dir).run t).1 with
    | error e =>
      rw [hr] at hscan
      exact ⟨_, _, _, .noScan hpolicy hscan⟩
    | ok r =>
      rw [hr] at hscan
      cases ho : o.report with
      | none => exact ⟨_, _, _, .unreported hpolicy hscan ho⟩
      | some path =>
        cases hw : t.write path r.text.toUTF8 with
        | error e => exact ⟨_, _, _, .noReport hpolicy hscan ho hw⟩
        | ok t' => exact ⟨_, _, _, .reported hpolicy hscan ho hw⟩

end

section
variable {t t' : FileTree} {env : Environment} {refusal : String → String} {timestamp : String} {o : Options}
  {result : Except Failure Report} {events : List Event}

theorem ends_load {x : Except PolicyError Policy} (h : policyStage t env refusal o = (x, t)) :
    Ends (Policy.load Files.ofTree.logged refusal o.config (.ofLookup env.get?)) t x [] t := by
  have hends := silent_load refusal o.config (.ofLookup env.get?) t
  rw [policyStage] at h
  rwa [h] at hends

theorem ends_scanStage {p : Policy} {y : Except ScanError Report} (h : scanStage t timestamp o p = (y, t)) :
    Ends (scanDirectory Files.ofTree.logged p timestamp o.dir) t y (scanEvents t p timestamp o.dir) t := by
  have hends := ends_scanDirectory p timestamp o.dir t
  rw [scanStage] at h
  rwa [h] at hends

theorem ends_write {path : String} {bytes : ByteArray} {z : Except FileError Unit}
    (h : (Files.ofTree.write path bytes).run t = (z, t')) :
    Ends (Files.ofTree.logged.write path bytes) t z [] t' := by
  have hends : Ends (Files.ofTree.logged.write path bytes) t _ [] _ := silent_lift _ t
  rwa [h] at hends

/-- Behind the policy and the scan only the report can fail. -/
theorem ends_scan_of_report {p : Policy} {r : Report} (written : Except Failure Unit)
    (hp : policyStage t env refusal o = (.ok p, t)) (hs : scanStage t timestamp o p = (.ok r, t))
    (hw : Ends (writeReport Files.ofTree.logged r o.report) t written events t') :
    Ends (scan Files.ofTree.logged refusal env timestamp o) t (written.map fun _ => r)
      (startEvents t timestamp o p ++ .violationsCounted r.countsByCode :: events) t' := by
  refine (ends_load hp).bind ((ends_log _ t).bind ((ends_scanStage hs).bind ((ends_log _ t).bind ?_)))
  cases written with
  | error f => exact hw.bind_silent (ends_pure _ t')
  | ok _ => exact hw.bind_silent (ends_pure _ t')

/-- A scan with a log comes to what its stages come to. -/
theorem Stages.ends (h : Stages t env refusal timestamp o result events t') :
    Ends (scan Files.ofTree.logged refusal env timestamp o) t result events t' := by
  cases h with
  | noPolicy hp => exact (ends_load hp).bind (ends_pure _ t)
  | noScan hp hs =>
    exact (ends_load hp).bind ((ends_log _ t).bind ((ends_scanStage hs).bind_silent (ends_pure _ t)))
  | unreported hp hs ho =>
    refine ends_scan_of_report (.ok ()) hp hs ?_
    rw [ho]
    exact ends_pure _ t
  | @noReport p r path e hp hs ho hw =>
    refine ends_scan_of_report (.error (.report path e)) hp hs ?_
    have hwrite : (Files.ofTree.write path r.text.toUTF8).run t = (.error e, t) := by rw [Files.run_write, hw]
    rw [ho]
    exact (ends_write hwrite).bind (ends_pure _ t)
  | @reported p r path t' hp hs ho hw =>
    refine ends_scan_of_report (.ok ()) hp hs ?_
    have hwrite : (Files.ofTree.write path r.text.toUTF8).run t = (.ok (), t') := by rw [Files.run_write, hw]
    rw [ho]
    exact (ends_write hwrite).bind ((ends_log _ t').bind (ends_pure _ t'))

/-- The stages come to one result. -/
theorem Stages.unique {result' : Except Failure Report} {events' : List Event} {t'' : FileTree}
    (h : Stages t env refusal timestamp o result events t')
    (h' : Stages t env refusal timestamp o result' events' t'') : result = result' ∧ events = events' ∧ t' = t'' := by
  have hsame := (h.ends []).symm.trans (h'.ends [])
  rw [Prod.mk.injEq, Prod.mk.injEq] at hsame
  exact ⟨hsame.1.1, hsame.1.2, hsame.2⟩

end

/-! ## Outcomes -/

/-- Arguments that ask for the log ask for it as the filter `debug` does. -/
theorem Wording.log_verbose {w : Wording} (h : w.filter? = LogFilter.read?) (filter : Option String)
    (events : List Event) : w.log true filter events = w.log false (some "debug") events := by
  have hlevel : LogFilter.level? "debug".toList = some 4 := by decide
  have hdebug : LogFilter.read? "debug" = some fun _ => true := LogFilter.read?_of_level (by decide) hlevel
  rw [Wording.log, Wording.log, h, Option.bind_some, hdebug]
  rfl

/-- Without a filter the log is as the filter `warn` has it. -/
theorem Wording.log_none {w : Wording} (h : w.filter? = LogFilter.read?) (events : List Event) :
    w.log false none events = w.log false (some "warn") events := by
  have hlevel : LogFilter.level? "warn".toList = some 2 := by decide
  have hwarn : LogFilter.read? "warn" = some fun _ => false := LogFilter.read?_of_level (by decide) hlevel
  rw [Wording.log, Wording.log, h, Option.bind_some, hwarn]
  rfl

/-- What a run with such a log and such a result tells. -/
structure Tells (explain : Bool) (log : String) (result : Except Failure Report) (out : Outcome) : Prop where
  exit_zero : out.exit = 0 ↔ ∃ r, result = .ok r ∧ r.violations = []
  exit_one : out.exit = 1 ↔ ∃ r, result = .ok r ∧ r.violations ≠ []
  exit_two : out.exit = 2 ↔ ∃ f, result = .error f
  clean : ∀ r, result = .ok r → r.violations = [] →
    out.stdout = "migration-guard: OK (" ++ counted r.filesScanned "file" ++ ")\n" ∧ out.stderr = log
  violated : ∀ r, result = .ok r → r.violations ≠ [] →
    out.stdout = "" ∧
      out.stderr = log ++ ("migration-guard: failed (" ++ counted r.violations.length "issue" ++ ")\n" ++
        String.join (r.violations.map fun v =>
          "- " ++ v.file ++ ": " ++ v.issue.message ++ "\n" ++
            if explain then "  statement: " ++ v.statement ++ "\n" else ""))
  failed : ∀ f, result = .error f →
    out.stdout = "" ∧ out.stderr = log ++ ("migration-guard: " ++ f.message ++ "\n")

section
variable {t t' : FileTree} {env : Environment} {timestamp : String} {args : List String} {o : Options}
  {result : Except Failure Report} {events : List Event}

/-- The arguments ask for a scan with such options. -/
def Asks (env : Environment) (args : List String) (o : Options) : Prop :=
  ∃ g, request? .nothing args = some (.scan g) ∧ g.options? (env.get? configVariable) = some o

theorem run_of_asks {w : Wording} (h : Asks (environmentOf t env) args o)
    (hstages : Stages t (environmentOf t env) w.refusal timestamp o result events t') :
    (run .ofTree w env timestamp args).run t =
      ((Outcome.ofResult o.explain result).after
        (w.log o.verbose ((environmentOf t env).get? filterVariable) events), t') := by
  obtain ⟨g, hg, ho⟩ := h
  rw [run, (readsOnly_loadEnvironment env).run_bind, loadEnvironment_run]
  dsimp only
  rw [hg]
  dsimp only
  rw [ho]
  dsimp only
  rw [runOptions, StateT.run_bind, hstages.ends]
  rfl

/-- Arguments that do not ask for a scan ask for the version or are wrong. -/
theorem run_of_not_asks (h : ∀ o, ¬ Asks (environmentOf t env) args o) (w : Wording) (timestamp : String) :
    (run .ofTree w env timestamp args).run t =
      (if request? .nothing args = some .version then .version else .usage, t) := by
  rw [run, (readsOnly_loadEnvironment env).run_bind, loadEnvironment_run]
  dsimp only
  cases hg : request? .nothing args with
  | none => rfl
  | some q =>
    cases q with
    | version => rfl
    | scan g =>
      cases ho : g.options? ((environmentOf t env).get? configVariable) with
      | none =>
        dsimp only
        rw [ho]
        rfl
      | some o => exact (h o ⟨g, hg, ho⟩).elim

end

end Cli

end MigrationLint
