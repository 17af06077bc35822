import MigrationLint.Proofs.PlainLines
import MigrationLint.Proofs.Rewrites
import MigrationLint.Proofs.Runs
import MigrationLint.Proofs.Values

/-!
# Where a run takes its settings from

The environment file stands below the process, and both stand above the policy file but below the arguments
(`environmentOf_effective`, `run_proceeds`). So it does not matter which of the two sets a variable
(`run_precedence`).
-/

namespace MigrationLint

open Environment

/-! ## Plain lines are no policy -/

namespace Json

/-- A text that starts with a letter or an underscore can only be one of the words of JSON. -/
theorem value?_of_word {c : Char} (hc : (c.isAlpha || c == '_') = true) {n : Nat} {s rest : List Char} {j : Json}
    (h : value? n (c :: s) = some (j, rest)) : j = .null ∨ ∃ b, j = .bool b := by
  have hne {d : Char} (hd : (d.isAlpha || d == '_') = false) : c ≠ d := ne_of_head hc hd
  have hspace : isSpace c = false := by
    simp [isSpace, hne (d := ' ') (by decide), hne (d := '\t') (by decide), hne (d := '\n') (by decide),
      hne (d := '\r') (by decide)]
  have hdigit : c.isDigit = false := by
    rw [Bool.eq_false_iff]
    intro hd
    have hdigits : 48 ≤ c.toNat ∧ c.toNat ≤ 57 := @Text.toNat_of_between c '0' '9' hd
    have hword : (c.isUpper = true ∨ c.isLower = true) ∨ c = '_' := by simpa [Char.isAlpha] using hc
    rcases hword with (hu | hl) | rfl
    · have : 65 ≤ c.toNat ∧ c.toNat ≤ 90 := of_decide_eq_true hu
      omega
    · have : 97 ≤ c.toNat ∧ c.toNat ≤ 122 := @Text.toNat_of_between c 'a' 'z' hl
      omega
    · exact absurd hdigits.2 (by decide)
  have hnumber : number? (c :: s) = none := by
    rw [number?_of_ne (hne (by decide)), unsigned?, digits?, List.takeWhile_cons_of_neg (by simp [hdigit])]
    rfl
  cases n with
  | zero => cases h
  | succ n =>
    unfold value? at h
    rw [skipSpace_cons hspace] at h
    split at h
    case h_1 => exact .inl (Prod.mk.inj (Option.some.inj h)).1.symm
    case h_2 => exact .inr ⟨true, (Prod.mk.inj (Option.some.inj h)).1.symm⟩
    case h_3 => exact .inr ⟨false, (Prod.mk.inj (Option.some.inj h)).1.symm⟩
    case h_4 e => exact absurd (List.cons.inj e).1 (hne (by decide))
    case h_5 e => exact absurd (List.cons.inj e).1 (hne (by decide))
    case h_6 e => exact absurd (List.cons.inj e).1 (hne (by decide))
    case h_7 =>
      rw [hnumber] at h
      cases h

end Json

theorem Settings.ofText_plain (refusal : String → String) {lines : Environment} {text : String}
    (h : Writes lines text.toList) : ofText refusal text = .error (.invalidFile (refusal text)) := by
  have hnone : (Json.parse? text.toList).bind ofJson? = none := by
    generalize text.toList = s at h
    have hword {c : Char} {s : List Char} (hc : (c.isAlpha || c == '_') = true) :
        (Json.parse? (c :: s)).bind ofJson? = none := by
      rw [Json.parse?]
      cases hvalue : Json.value? (2 * (c :: s).length + 2) (c :: s) with
      | none => rfl
      | some r =>
        dsimp only
        split
        · rcases Json.value?_of_word hc hvalue with hnull | ⟨b, hbool⟩
          · rw [hnull]
            rfl
          · rw [hbool]
            rfl
        · rfl
    cases h with
    | nil => rfl
    | last hline =>
      obtain ⟨c, s, hs, hc⟩ := hline.exists_head
      rw [hs, hword hc]
    | cons hline _ _ =>
      obtain ⟨c, s, hs, hc⟩ := hline.exists_head
      rw [hs, List.cons_append, hword hc]
  rw [ofText, hnone]

/-! ## Values of variables -/

namespace Environment

/-- The value of a variable: that of the process, if it is set there, else that of the first line of its name. -/
def effective (env lines : Environment) (name : String) : Option String := (env.get? name).or (lines.get? name)

/-- The environment without a variable. -/
def without (env : Environment) (name : String) : Environment := env.filter (·.1 ≠ name)

/-- A variable may be set by the first line instead of the process. -/
theorem effective_without {env : Environment} {name value : String} (h : env.get? name = some value)
    (lines : Environment) : effective (env.without name) ((name, value) :: lines) = effective env lines := by
  funext x
  unfold effective without
  unfold get? at h ⊢
  rw [lookup_filter, lookup_cons_ite]
  by_cases hx : x = name
  · rw [if_pos hx, if_pos hx, hx, h]
    rfl
  · rw [if_neg hx, if_neg hx]

end Environment

namespace Cli

section
variable {t : FileTree} {lines : Environment} {text : String}

theorem environmentOf_effective (hread : t.read ".env" = .ok text.toUTF8) (hlines : Writes lines text.toList)
    (env : Environment) : (environmentOf t env).get? = effective env lines := by
  funext name
  rw [environmentOf_of_read hread]
  exact get?_load hlines env name

end

/-! ## Policies of runs -/

section
variable (t : FileTree) (refusal : String → String)

/-- The policy of a file, with the settings in variables in place of its own. An empty variable is no setting. -/
def resolved (path : String) (values : String → Option String) : Except PolicyError Policy :=
  match (t.read path).bind decodeText with
  | .error e => .error (.unreadable path e)
  | .ok text => (Settings.ofText refusal text).bind fun file => Policy.resolve file (.ofLookup values)

theorem policyStage_eq (env : Environment) (o : Options) :
    policyStage t env refusal o = (resolved t refusal o.config env.get?, t) := by
  rw [policyStage, Policy.load, (Files.readsOnly_readText o.config).run_bind, resolved]
  have hread : ((Files.ofTree.readText o.config).run t).1 = (t.read o.config).bind decodeText := rfl
  rw [hread]
  cases (t.read o.config).bind decodeText <;> rfl

end

/-- The policy file of a run: as the arguments give it, else as the variable does. -/
def policyPath (g : Given) (values : String → Option String) : String :=
  (g.config.or (values configVariable)).getD "migration-guard.config.json"

theorem configPath?_eq (g : Given) (values : String → Option String) :
    configPath? g.config (values configVariable) =
      if g.config = none ∧ values configVariable = some "" then none else some (policyPath g values) := by
  unfold configPath? policyPath
  cases g.config <;> cases values configVariable <;> simp

/-- How a run that is asked for a scan goes on with values of variables: an empty variable is no policy file, and
otherwise the policy is that of the file, which the arguments name before the variable does. -/
structure Proceeds (t : FileTree) (env : Environment) (w : Wording) (timestamp : String) (g : Given)
    (values : String → Option String) (ran : Outcome × FileTree) : Prop where
  usage : g.config = none ∧ values configVariable = some "" → ran = (.usage, t)
  stages : ¬ (g.config = none ∧ values configVariable = some "") →
    ∃ o : Options, o.dir = g.dir.getD "supabase/migrations" ∧ o.report = g.report ∧ o.explain = g.explain ∧
      o.verbose = g.verbose ∧ o.config = policyPath g values ∧
      policyStage t env w.refusal o = (resolved t w.refusal o.config values, t) ∧
      ∃ result events t', Stages t env w.refusal timestamp o result events t' ∧
        ran = ((Outcome.ofResult o.explain result).after (w.log o.verbose (values filterVariable) events), t')

theorem run_proceeds (t : FileTree) (env : Environment) (w : Wording) (timestamp : String) {args : List String}
    {g : Given} (hg : request? .nothing args = some (.scan g)) :
    Proceeds t (environmentOf t env) w timestamp g (environmentOf t env).get?
      ((run .ofTree w env timestamp args).run t) := by
  have hpath := configPath?_eq g (environmentOf t env).get?
  refine ⟨fun h => ?_, fun h => ?_⟩
  · rw [if_pos h] at hpath
    have hnone : ∀ o, ¬ Asks (environmentOf t env) args o := by
      rintro o ⟨g', hg', ho⟩
      obtain rfl : g = g' := by simpa [hg] using hg'
      rw [Given.options?, hpath] at ho
      cases ho
    rw [run_of_not_asks hnone, if_neg (by simp [hg])]
  · rw [if_neg h] at hpath
    let path := policyPath g (environmentOf t env).get?
    let o : Options := ⟨g.dir.getD "supabase/migrations", path, g.report, g.explain, g.verbose⟩
    have hasks : Asks (environmentOf t env) args o := ⟨g, hg, by rw [Given.options?, hpath, Option.map_some]⟩
    obtain ⟨result, events, t', hstages⟩ := exists_stages t (environmentOf t env) w.refusal timestamp o
    exact ⟨o, rfl, rfl, rfl, rfl, rfl, policyStage_eq _ _ _ _, result, events, t', hstages, run_of_asks hasks hstages⟩

/-! ## Moving a variable -/

/-- The two trees are left as they are, or the same file is written in both. -/
inductive SameWrites (t t' : FileTree) : FileTree → FileTree → Prop
  | nothing : SameWrites t t' t t'
  | file (p : Place) (bytes : ByteArray) : SameWrites t t' (t.set p (.file bytes)) (t'.set p (.file bytes))

section
variable {t : FileTree} {q : Place} {b b' : ByteArray} {env env' : Environment} {refusal : String → String}
  {timestamp : String} {o : Options} (hq : t.entry? q = some (.file b)) (ht : t.Sound)
  (hname : q.getLast?.any isSqlName = false)
  (hpolicy : resolved (t.set q (.file b')) refusal o.config env'.get? = resolved t refusal o.config env.get?)
include hq ht hname hpolicy

theorem Stages.rewritten {result : Except Failure Report} {events : List Event} {after : FileTree}
    (h : Stages t env refusal timestamp o result events after) :
    ∃ after', Stages (t.set q (.file b')) env' refusal timestamp o result events after' ∧
      SameWrites t (t.set q (.file b')) after after' := by
  have hload : policyStage (t.set q (.file b')) env' refusal o =
      ((policyStage t env refusal o).1, t.set q (.file b')) := by
    rw [policyStage_eq, policyStage_eq, hpolicy]
  have hscan (p : Policy) :
      scanStage (t.set q (.file b')) timestamp o p = ((scanStage t timestamp o p).1, t.set q (.file b')) := by
    rw [scanStage, (readsOnly_scanDirectory _ _ _).run_eq, scanDirectory_set hq ht hname]
    rfl
  have hevents (p : Policy) : startEvents t timestamp o p = startEvents (t.set q (.file b')) timestamp o p := by
    rw [startEvents, startEvents, scanEvents_set hq ht hname]
  have hwrite (path : String) (bytes : ByteArray) := (FileTree.agreeBut_set hq b').write path bytes
  generalize t.set q (.file b') = t' at hload hscan hevents hwrite ⊢
  cases h with
  | noPolicy hp => exact ⟨t', .noPolicy (by rw [hload, hp]), .nothing⟩
  | noScan hp hs =>
    rw [hevents]
    exact ⟨t', .noScan (by rw [hload, hp]) (by rw [hscan, hs]), .nothing⟩
  | unreported hp hs ho =>
    rw [hevents]
    exact ⟨t', .unreported (by rw [hload, hp]) (by rw [hscan, hs]) ho, .nothing⟩
  | @noReport p r path e hp hs ho hw =>
    rw [hevents]
    rcases hwrite path r.text.toUTF8 with ⟨e', h, h'⟩ | ⟨place, h, -⟩
    · obtain rfl : e = e' := Except.error.inj (hw.symm.trans h)
      exact ⟨t', .noReport (by rw [hload, hp]) (by rw [hscan, hs]) ho h', .nothing⟩
    · cases hw.symm.trans h
  | @reported p r path after hp hs ho hw =>
    rw [hevents]
    rcases hwrite path r.text.toUTF8 with ⟨e', h, -⟩ | ⟨place, h, h'⟩
    · cases hw.symm.trans h
    · obtain rfl : after = _ := Except.ok.inj (hw.symm.trans h)
      exact ⟨_, .reported (by rw [hload, hp]) (by rw [hscan, hs]) ho h', .file place _⟩

end

/-- What two runs do alike: their exit codes, their output but for the errors, what they write, and in case of
`alike` all that they tell. -/
structure SameRuns (alike : Prop) (t t' : FileTree) (ran ran' : Outcome × FileTree) : Prop where
  exit : ran'.1.exit = ran.1.exit
  stdout : ran'.1.stdout = ran.1.stdout
  writes : SameWrites t t' ran.2 ran'.2
  outcome : alike → ran'.1 = ran.1

theorem SameRuns.of_same {alike : Prop} {t t' after after' : FileTree} {out : Outcome} {ran ran' : Outcome × FileTree}
    (h : ran = (out, after)) (h' : ran' = (out, after')) (hwrites : SameWrites t t' after after') :
    SameRuns alike t t' ran ran' := by
  subst h h'
  exact ⟨rfl, rfl, hwrites, fun _ => rfl⟩

/-- The policy file that a run reads, if it is asked for a scan, holds the same in both trees. -/
def SamePolicyFile (t t' : FileTree) (args : List String) (values : String → Option String) : Prop :=
  ∀ g, request? .nothing args = some (.scan g) → t'.read (policyPath g values) = t.read (policyPath g values)

theorem Asks.exists_given {env : Environment} {args : List String} {o : Options} (h : Asks env args o) :
    ∃ g, request? .nothing args = some (.scan g) ∧ o.config = policyPath g env.get? := by
  obtain ⟨g, hg, ho⟩ := h
  refine ⟨g, hg, ?_⟩
  rw [Given.options?, configPath?_eq] at ho
  split at ho
  · cases ho
  · cases ho
    rfl

theorem resolved_of_read {t t' : FileTree} {path : String} (h : t'.read path = t.read path)
    (refusal : String → String) (values : String → Option String) :
    resolved t' refusal path values = resolved t refusal path values := by rw [resolved, h, resolved]

/-- A file of plain lines gives no policy. -/
theorem resolved_plain {t : FileTree} {path text : String} {lines : Environment} (hread : t.read path = .ok text.toUTF8)
    (hlines : Writes lines text.toList) (refusal : String → String) (values : String → Option String) :
    resolved t refusal path values = .error (.invalidFile (refusal text)) := by
  rw [resolved, hread, Except.bind, decodeText_toUTF8]
  simp only [Settings.ofText_plain refusal hlines, Except.bind]

theorem run_of_plain_policy {t : FileTree} {env lines : Environment} {args : List String} {o : Options}
    {text : String} (h : Asks (environmentOf t env) args o) (hread : t.read o.config = .ok text.toUTF8)
    (hlines : Writes lines text.toList) (w : Wording) (timestamp : String) :
    (run .ofTree w env timestamp args).run t =
      ((Outcome.ofFailure (.policy (.invalidFile (w.refusal text)))).after
        (w.log o.verbose ((environmentOf t env).get? filterVariable) []), t) := by
  have hpolicy := policyStage_eq t w.refusal (environmentOf t env) o
  rw [resolved_plain hread hlines] at hpolicy
  have hstages : Stages t (environmentOf t env) w.refusal timestamp o _ _ _ := .noPolicy hpolicy
  exact run_of_asks h hstages

section
variable {t : FileTree} {q : Place} {lines lines' : Environment} {text text' : String} {env env' : Environment}
  (hq : t.entry? q = some (.file text.toUTF8)) (ht : t.Sound) (hname : q.getLast?.any isSqlName = false)
  (hlines : Writes lines text.toList) (hlines' : Writes lines' text'.toList)
  (hvalues : (environmentOf (t.set q (.file text'.toUTF8)) env').get? = (environmentOf t env).get?)
include hq ht hname hlines hlines' hvalues

/-- Runs with the same values of variables do the same in both trees. They tell apart two files of plain lines only
if they read one as the policy. -/
theorem run_rewritten (w : Wording) (timestamp : String) (args : List String) :
    SameRuns (SamePolicyFile t (t.set q (.file text'.toUTF8)) args (environmentOf t env).get?) t
      (t.set q (.file text'.toUTF8)) ((run .ofTree w env timestamp args).run t)
      ((run .ofTree w env' timestamp args).run (t.set q (.file text'.toUTF8))) := by
  by_cases hasks : ∃ o, Asks (environmentOf t env) args o
  · obtain ⟨o, hasks⟩ := hasks
    have hasks' : Asks (environmentOf (t.set q (.file text'.toUTF8)) env') args o := by
      unfold Asks
      rwa [hvalues]
    obtain ⟨result, events, after, hstages⟩ := exists_stages t (environmentOf t env) w.refusal timestamp o
    by_cases hread : (t.set q (.file text'.toUTF8)).read o.config = t.read o.config
    · have hpolicy : resolved (t.set q (.file text'.toUTF8)) w.refusal o.config
          (environmentOf (t.set q (.file text'.toUTF8)) env').get? =
            resolved t w.refusal o.config (environmentOf t env).get? := by
        rw [hvalues, resolved_of_read hread]
      obtain ⟨after', hstages', hwrites⟩ := hstages.rewritten hq ht hname hpolicy
      have hrun' := run_of_asks hasks' hstages'
      rw [hvalues] at hrun'
      exact .of_same (run_of_asks hasks hstages) hrun' hwrites
    · -- The file itself is read as the policy, and both runs end there.
      obtain ⟨hpolicy, hpolicy'⟩ := ((FileTree.agreeBut_set hq text'.toUTF8).read o.config).resolve_left hread
      have hrun := run_of_plain_policy hasks hpolicy hlines w timestamp
      have hrun' := run_of_plain_policy hasks' hpolicy' hlines' w timestamp
      rw [hrun, hrun']
      refine ⟨rfl, rfl, .nothing, fun halike => ?_⟩
      obtain ⟨g, hg, hconfig⟩ := hasks.exists_given
      exact (hread (hconfig ▸ halike g hg)).elim
  · have hnone : ∀ o, ¬ Asks (environmentOf t env) args o := fun o ho => hasks ⟨o, ho⟩
    have hnone' : ∀ o, ¬ Asks (environmentOf (t.set q (.file text'.toUTF8)) env') args o := by
      unfold Asks
      rwa [hvalues]
    exact .of_same (run_of_not_asks hnone w timestamp) (run_of_not_asks hnone' w timestamp) .nothing

end

/-- **Precedence.** With an environment file of plain lines, a variable has its value from the process, if it is set
there at all, else from the first line of its name. The arguments, these values and the policy file decide in this
order. So a variable may be moved to the front of the environment file, which is no migration file: the run ends with
the same exit code and output and writes the same report, and unless the environment file is the policy file itself it
tells the same errors. -/
theorem run_precedence {t : FileTree} {lines : Environment} {text : String} (hread : t.read ".env" = .ok text.toUTF8)
    (hlines : Writes lines text.toList) (env : Environment) (w : Wording) (timestamp : String) (args : List String) :
    (∀ name, (environmentOf t env).get? name = effective env lines name) ∧
    (∀ g, request? .nothing args = some (.scan g) →
      Proceeds t (environmentOf t env) w timestamp g (effective env lines)
        ((run .ofTree w env timestamp args).run t)) ∧
    ∀ name value (text' : String) t', t.Sound → t.Apart ".env" → env.get? name = some value →
      Writes ((name, value) :: lines) text'.toList → t.write ".env" text'.toUTF8 = .ok t' →
        SameRuns (SamePolicyFile t t' args (effective env lines)) t t' ((run .ofTree w env timestamp args).run t)
          ((run .ofTree w (env.without name) timestamp args).run t') := by
  have hvalues := environmentOf_effective hread hlines env
  refine ⟨fun name => congrFun hvalues name, fun g hg => ?_,
    fun name value text' t' ht hapart hset hlines' hwrite => ?_⟩
  · rw [← hvalues]
    exact run_proceeds t env w timestamp hg
  · have hvalues' := environmentOf_effective (FileTree.read_write hwrite) hlines' (env.without name)
    obtain ⟨q, hplace, hq, rfl⟩ := FileTree.exists_set_of_write hread hwrite
    rw [← hvalues]
    refine run_rewritten hq ht (hapart q hplace) hlines hlines' ?_ w timestamp args
    rw [hvalues', hvalues, effective_without hset]

/-- The policy file is named by the environment file instead of the process. An empty variable hides a line. -/
theorem run_precedence_moved :
    let text := "MIGRATION_GUARD_PREFIX=app_\nMIGRATION_GUARD_ALLOWED_SCHEMAS=extra\r\n"
    let text' := "MIGRATION_GUARD_CONFIG=policy.json\n" ++ text
    let tree (file : String) : FileTree :=
      ⟨[(["work"], .folder), (["work", "policy.json"], .file "\x7b\x7d".toUTF8), (["work", "m"], .folder),
        (["work", "m", "a.sql"], .file "drop table extra.app_t".toUTF8), (["work", ".env"], .file file.toUTF8)],
        ["work"]⟩
    let lines : Environment := [("MIGRATION_GUARD_PREFIX", "app_"), ("MIGRATION_GUARD_ALLOWED_SCHEMAS", "extra")]
    let env : Environment := [("MIGRATION_GUARD_ALLOWED_SCHEMAS", ""), ("MIGRATION_GUARD_CONFIG", "policy.json")]
    let env' := env.without "MIGRATION_GUARD_CONFIG"
    let out : Outcome := ⟨1, "", "migration-guard: failed (1 issue)\n- m/a.sql: schema not allowlisted: extra\n"⟩
    let w : Wording := .atTime "2024-01-01T00:00:00.000000Z" (fun _ => true) fun _ => ""
    (tree text).read ".env" = .ok text.toUTF8 ∧ Writes lines text.toList ∧ (tree text).Sound ∧
      (tree text).Apart ".env" ∧ env.get? "MIGRATION_GUARD_CONFIG" = some "policy.json" ∧
      Writes (("MIGRATION_GUARD_CONFIG", "policy.json") :: lines) text'.toList ∧
      (tree text).write ".env" text'.toUTF8 = .ok (tree text') ∧
      SamePolicyFile (tree text) (tree text') ["--dir", "m"] (effective env lines) ∧
      ((run .ofTree w env "now" ["--dir", "m"]).run (tree text)).1 = out ∧
      ((run .ofTree w env' "now" ["--dir", "m"]).run (tree text')).1 = out := by
  intro text text' tree lines env env' out w
  have hread : (tree text).read ".env" = .ok text.toUTF8 := rfl
  have ht : (tree text).Sound := by decide +kernel
  have hapart : (tree text).Apart ".env" := by
    intro p hp
    obtain rfl : ["work", ".env"] = p := Except.ok.inj hp
    decide
  have hlines : Writes lines text.toList := by
    have hfirst : PlainLine ("MIGRATION_GUARD_PREFIX", "app_") := by decide
    have hsecond : PlainLine ("MIGRATION_GUARD_ALLOWED_SCHEMAS", "extra") := by decide
    have h := Writes.cons hfirst (.inl rfl) (.cons hsecond (.inr rfl) .nil)
    convert h using 1
    decide +kernel
  have hlines' : Writes (("MIGRATION_GUARD_CONFIG", "policy.json") :: lines) text'.toList := by
    have hfront : PlainLine ("MIGRATION_GUARD_CONFIG", "policy.json") := by decide
    have h := Writes.cons hfront (.inl rfl) hlines
    convert h using 1
    decide +kernel
  have hwrite : (tree text).write ".env" text'.toUTF8 = .ok (tree text') := rfl
  have hpolicy : SamePolicyFile (tree text) (tree text') ["--dir", "m"] (effective env lines) := by
    intro g hg
    obtain rfl : g = ⟨some "m", none, none, false, false⟩ := by
      have hrequest : request? .nothing ["--dir", "m"] = some (.scan ⟨some "m", none, none, false, false⟩) := by
        decide +kernel
      simpa [hg] using hrequest
    have hpath : policyPath ⟨some "m", none, none, false, false⟩ (effective env lines) = "policy.json" := by decide
    have hfile (file : String) : (tree file).read "policy.json" = .ok "\x7b\x7d".toUTF8 := rfl
    rw [hpath, hfile, hfile]
  have hout : ((run .ofTree w env "now" ["--dir", "m"]).run (tree text)).1 = out := by decide +kernel
  obtain ⟨-, -, hmoved⟩ := run_precedence hread hlines env w "now" ["--dir", "m"]
  have hruns := hmoved _ _ text' (tree text') ht hapart rfl hlines' hwrite
  exact ⟨hread, hlines, ht, hapart, rfl, hlines', hwrite, hpolicy, hout, (hruns.outcome hpolicy).trans hout⟩

/-- What plain lines leave out: a backslash, with which the reading of the file ends. An empty name of the policy file
is a mistake wherever it is set. The environment file may be a link to a migration file, and it may be read as the
policy: the error tells what is wrong with its text. -/
theorem run_precedence_limits :
    let tree (entries : List (Place × Entry)) : FileTree :=
      ⟨[(["work"], .folder), (["work", "migration-guard.config.json"], .file "\x7b\x7d".toUTF8),
        (["work", "m"], .folder)] ++ entries, ["work"]⟩
    let refusal (text : String) : String :=
      if text = "" then "EOF while parsing a value at line 1 column 0" else "expected value at line 1 column 1"
    let w : Wording := .atTime "2024-01-01T00:00:00.000000Z" (fun _ => true) refusal
    let ran (t : FileTree) (env : Environment) := ((run .ofTree w env "now" ["--dir", "m"]).run t).1
    let escaped := tree [(["work", "m", "a.sql"], .file "select 1;".toUTF8),
      (["work", ".env"], .file "MIGRATION_GUARD_PREFIX=c\\b_\n".toUTF8)]
    let unnamed := tree [(["work", "m", "a.sql"], .file "select 1;".toUTF8),
      (["work", ".env"], .file "MIGRATION_GUARD_CONFIG=\n".toUTF8)]
    let linked (text : String) :=
      tree [(["work", ".env"], .link "m/a.sql"), (["work", "m", "a.sql"], .file text.toUTF8)]
    let env : Environment := [("MIGRATION_GUARD_PREFIX", "cb_"), ("MIGRATION_GUARD_BLOCKED_SCHEMAS", "a.b")]
    let own (text : String) := tree [(["work", ".env"], .file text.toUTF8)]
    let told (text : String) (env : Environment) :=
      ((run .ofTree w env "now" ["--config", ".env"]).run (own text)).1.stderr
    ((∀ c ∈ "c\\b_".toList, Text.isBlank c = false ∧ c ∉ ['\x22', '\x27', '$', '#']) ∧
      effective [] [("MIGRATION_GUARD_PREFIX", "c\\b_")] "MIGRATION_GUARD_PREFIX" = some "c\\b_" ∧
      (environmentOf escaped []).get? "MIGRATION_GUARD_PREFIX" = none ∧
      ran escaped [] = .ofFailure (.policy .missingPrefix)) ∧
    (effective [] [("MIGRATION_GUARD_CONFIG", "")] configVariable = some "" ∧ ran unnamed [] = .usage) ∧
    ((linked "").write ".env" "MIGRATION_GUARD_BLOCKED_SCHEMAS=a.b\n".toUTF8 =
        .ok (linked "MIGRATION_GUARD_BLOCKED_SCHEMAS=a.b\n") ∧
      (ran (linked "") env).exit = 0 ∧
      (ran (linked "MIGRATION_GUARD_BLOCKED_SCHEMAS=a.b\n")
        (env.without "MIGRATION_GUARD_BLOCKED_SCHEMAS")).exit = 1) ∧
    ((own "").write ".env" "MIGRATION_GUARD_PREFIX=cb_\n".toUTF8 = .ok (own "MIGRATION_GUARD_PREFIX=cb_\n") ∧
      told "" [("MIGRATION_GUARD_PREFIX", "cb_")] =
        "migration-guard: failed to parse config: EOF while parsing a value at line 1 column 0\n" ∧
      told "MIGRATION_GUARD_PREFIX=cb_\n" [] =
        "migration-guard: failed to parse config: expected value at line 1 column 1\n") := by
  intro tree refusal w ran escaped unnamed linked env own told
  refine ⟨⟨Text.forall_of_all (by decide), by decide, by decide +kernel, by decide +kernel⟩,
    ⟨by decide, by decide +kernel⟩, ⟨rfl, by decide +kernel, by decide +kernel⟩, ?_⟩
  exact ⟨rfl, by decide +kernel, by decide +kernel⟩

end Cli

end MigrationLint
