/-
Containers on the NAS run on the files that are on disk, as long as no play leaves one behind.

A file that is written again makes a running container stale, until it is started anew.  The task
that does this follows the one that writes, and once a play is over nothing is left of what it
has changed; Garage's own is never told at all.

* `render_spec`, `deploy_spec` — what the tasks do to the files and to the container;
* `Part.Rewrites`, `Part.Keeps`, `part_fresh_iff` — when the tasks of a container leave it stale;
* `plays_fresh` — plays none of whose tasks do so;
* `secret_rotated` — two plays of Garage, with another secret in the second one.
-/
import KrgInfra.ContainerPlays

namespace NasContainers

open Python

/-- Some file was written since `time`. -/
def WrittenSince (time : ℕ) (b : Box) : Prop := ∃ p file, b.files p = some file ∧ time ≤ file.2

/-- A container that runs was started since `time`. -/
def StartedSince (time : ℕ) (b : Box) : Prop :=
  ∀ c, b.container = some c → c.running = true → time ≤ c.started

/-- The container runs. -/
def Runs (b : Box) : Prop := ∃ c, b.container = some c ∧ c.running = true

/-! ### Writes -/

theorem write_all_frame : ∀ (l : List (String × String)) (written : ℕ → Bool) (b : Box),
    (write_all written l b).1.container = b.container ∧
      (write_all written l b).1.compose = b.compose ∧
      (write_all written l b).1.storage = b.storage := by
  intro l
  induction l with
  | nil => exact fun _ _ => ⟨rfl, rfl, rfl⟩
  | cons file rest ih =>
    intro written b
    rw [write_all]
    split_ifs
    · exact ih _ _
    · exact ⟨rfl, rfl, rfl⟩

theorem write_all_report : ∀ (l : List (String × String)) (written : ℕ → Bool) (b : Box),
    (write_all written l b).2 =
      if ∀ n < l.length, written n = true then Report.changed else Report.fail := by
  intro l
  induction l with
  | nil => exact fun _ _ => (if_pos fun n hn => absurd hn (Nat.not_lt_zero n)).symm
  | cons file rest ih =>
    intro written b
    rw [write_all]
    by_cases hfirst : written 0 = true
    · rw [if_pos hfirst, ih]
      refine if_congr ⟨fun h n hn => ?_, fun h n hn => h (n + 1) ?_⟩ rfl rfl
      · cases n with
        | zero => exact hfirst
        | succ n => exact h n (Nat.lt_of_succ_lt_succ hn)
      · exact Nat.succ_lt_succ hn
    · rw [if_neg hfirst, if_neg fun h => hfirst (h 0 (Nat.succ_pos _))]

/-- A file stays, perhaps with a later time. -/
theorem write_all_files {time : ℕ} : ∀ (l : List (String × String)) (written : ℕ → Bool) (b : Box)
    {p : String}, time ≤ b.clock → (∃ file, b.files p = some file ∧ time ≤ file.2) →
      ∃ file, (write_all written l b).1.files p = some file ∧ time ≤ file.2 := by
  intro l
  induction l with
  | nil => exact fun _ _ _ _ h => h
  | cons first rest ih =>
    intro written b p htime h
    rw [write_all]
    split_ifs
    · refine ih _ _ (Nat.le_succ_of_le htime) ?_
      by_cases hp : p = first.1
      · exact ⟨(first.2, b.clock), hp ▸ Function.update_self _ _ _, htime⟩
      · obtain ⟨file, hfile, hle⟩ := h
        exact ⟨file, (Function.update_of_ne hp _ _).trans hfile, hle⟩
    · exact h

/-- The first write. -/
theorem write_all_since {l : List (String × String)} {written : ℕ → Bool} {b : Box} (hl : l ≠ [])
    (hfirst : written 0 = true) : WrittenSince b.clock (write_all written l b).1 := by
  cases l with
  | nil => exact absurd rfl hl
  | cons first rest =>
    rw [write_all, if_pos hfirst]
    exact ⟨first.1, write_all_files rest _ _ (Nat.le_succ _)
      ⟨(first.2, b.clock), Function.update_self _ _ _, Nat.le_refl _⟩⟩

theorem write_all_there : ∀ (l : List (String × String)) (written : ℕ → Bool) (b : Box),
    (write_all written l b).2 = .changed →
      ∀ file ∈ l, ((write_all written l b).1.files file.1).isSome := by
  intro l
  induction l with
  | nil => exact fun _ _ _ _ h => nomatch h
  | cons first rest ih =>
    intro written b h file hfile
    rw [write_all] at h ⊢
    split_ifs at h ⊢
    obtain rfl | hfile := List.mem_cons.mp hfile
    · obtain ⟨f, hf, -⟩ := write_all_files rest (fun n => written (n + 1))
        (b.write file.1 file.2) (Nat.zero_le _) ⟨_, Function.update_self _ _ _, Nat.zero_le _⟩
      rw [hf]
      rfl
    · exact ih _ _ h file hfile

/-! ### Render -/

section Render

variable {desired : List (String × String)} {stale check : Bool} {env : RenderEnv} {b : Box}

/-- `render` writes at least one file. -/
structure Writes (desired : List (String × String)) (stale check : Bool) (env : RenderEnv)
    (b : Box) : Prop where
  apply : check = false
  ready : env.ready = true
  outdated : outdated desired stale b ≠ []
  first : env.write 0 = true

theorem render_of_writes (h : Writes desired stale check env b) :
    render desired stale check env b = write_all env.write (outdated desired stale b) b := by
  rw [render, h.apply, h.ready]
  exact if_neg h.outdated

theorem render_of_not_writes (h : ¬ Writes desired stale check env b) :
    (render desired stale check env b).1 = b := by
  rw [render]
  split_ifs with hready hchanged hcheck
  · rfl
  · rfl
  · rfl
  · -- the first write fails
    cases hl : outdated desired stale b with
    | nil => exact absurd hl hchanged
    | cons first rest =>
      have hfirst : ¬ env.write 0 = true := fun hw =>
        h ⟨Bool.eq_false_iff.mpr hcheck, Bool.of_not_eq_false hready, hchanged, hw⟩
      rw [write_all, if_neg hfirst]

/-- What is rendered is there afterwards. -/
theorem render_there (desired : List (String × String)) (stale : Bool) (env : RenderEnv)
    (h : (render desired stale false env b).2 ≠ .fail) :
    ∀ file ∈ desired, ((render desired stale false env b).1.files file.1).isSome := by
  have hthere : ∀ file ∈ desired, file ∉ outdated desired stale b → (b.files file.1).isSome := by
    intro file hfile hnot
    have hsame : (b.files file.1).map (fun f => readText f.1) = some file.2 := by
      refine not_not.mp fun hne => hnot (List.mem_filter.mpr ⟨hfile, ?_⟩)
      rw [decide_eq_true hne, Bool.or_true]
    obtain ⟨f, hf, -⟩ := Option.map_eq_some_iff.mp hsame
    rw [hf]
    rfl
  intro file hfile
  by_cases hready : env.ready = false
  · rw [render, if_pos hready] at h
    exact absurd rfl h
  by_cases hchanged : outdated desired stale b = []
  · rw [render, if_neg hready, if_pos hchanged]
    exact hthere file hfile fun hmem => List.not_mem_nil (hchanged ▸ hmem)
  rw [render, if_neg hready, if_neg hchanged, if_neg Bool.false_ne_true] at h ⊢
  by_cases hmem : file ∈ outdated desired stale b
  · refine write_all_there _ _ _ ?_ file hmem
    rw [write_all_report] at h ⊢
    split_ifs at h ⊢
    · rfl
    · exact absurd rfl h
  · obtain ⟨f, hf⟩ := Option.isSome_iff_exists.mp (hthere file hfile hmem)
    obtain ⟨f', hf', -⟩ := write_all_files (outdated desired stale b) env.write b
      (Nat.zero_le _) ⟨f, hf, Nat.zero_le _⟩
    rw [hf']
    rfl

end Render

/-! ### Deploy -/

section Deploy

variable {meaning : String → Service} {d : Deployment} {config_changed check : Bool}
  {env : DeployEnv} {b : Box}

/-- What docker is asked leaves the container as it is: `up` of a container that runs as the
compose file has it, nothing at all, or a command that fails and does nothing. -/
def LeftAlone (meaning : String → Service) (d : Deployment) (found : Drift) (answer : Answer)
    (b : Box) : Prop :=
  if found.recreate then answer = .failed .left ∨
    answer = .ok ∧ b.runs (meaning ((composed d found b).getD "")) = true
  else found.config_changed = true → answer = .failed .left

/-- A command that fails leaves the container alone, or it is not running, or was started. -/
theorem suffer_spec (service : Service) (effect : Effect) :
    (b.suffer service effect).files = b.files ∧
      (effect = .left → (b.suffer service effect).container = b.container) ∧
      (effect ≠ .left → StartedSince b.clock (b.suffer service effect)) := by
  cases effect with
  | left => exact ⟨rfl, fun _ => rfl, fun h => absurd rfl h⟩
  | stopped =>
    refine ⟨rfl, fun h => (nomatch h), fun _ c hc hrunning => ?_⟩
    obtain ⟨c', -, rfl⟩ := Option.map_eq_some_iff.mp hc
    exact nomatch hrunning
  | removed => exact ⟨rfl, fun h => (nomatch h), fun _ c hc _ => (nomatch hc)⟩
  | started =>
    refine ⟨rfl, fun h => (nomatch h), fun _ c hc _ => ?_⟩
    obtain rfl := Option.some_inj.mp hc
    exact Nat.le_refl _

theorem started_since_start (service : Service) : StartedSince b.clock (b.start service) := by
  intro c hc _
  obtain rfl := Option.some_inj.mp hc
  exact Nat.le_refl _

theorem up_ok (b : Box) : up meaning .ok b =
    (if b.runs (meaning (b.compose.getD "")) then b else b.start (meaning (b.compose.getD "")),
      .changed) := rfl

theorem up_failed (effect : Effect) (b : Box) : up meaning (.failed effect) b =
    (b.suffer (meaning (b.compose.getD "")) effect, .fail) := rfl

theorem restart_none (answer : Answer) (h : b.container = none) : (restart answer b).1 = b := by
  cases answer with
  | ok => simp only [restart, h]
  | failed effect => simp only [restart, h]

theorem restart_ok {c : Container} (h : b.container = some c) :
    restart .ok b = (b.start c.service, .changed) := by
  simp only [restart, h]

theorem restart_failed {c : Container} (h : b.container = some c) (effect : Effect) :
    restart (.failed effect) b = (b.suffer c.service effect, .fail) := by
  simp only [restart, h]

/-- What `up` and `restart` do, once the compose file is there. -/
theorem command_spec (meaning : String → Service) (env : DeployEnv) {found : Drift}
    (hcompose : b.compose = composed d found b)
    {after : Box × Report}
    (hafter : after = if found.recreate then up meaning env.docker b
      else if found.config_changed then restart env.docker b else (b, .changed)) :
    after.1.files = b.files ∧
      (LeftAlone meaning d found env.docker b → after.1.container = b.container) ∧
      (¬ LeftAlone meaning d found env.docker b → StartedSince b.clock after.1) := by
  rw [LeftAlone, ← hcompose]
  subst hafter
  by_cases hrecreate : found.recreate = true
  · rw [if_pos hrecreate, if_pos hrecreate]
    cases env.docker with
    | ok =>
      rw [up_ok]
      by_cases hsame : b.runs (meaning (b.compose.getD "")) = true
      · rw [if_pos hsame]
        exact ⟨rfl, fun _ => rfl, fun h => absurd (.inr ⟨rfl, hsame⟩) h⟩
      · rw [if_neg hsame]
        refine ⟨rfl, fun h => ?_, fun _ => started_since_start _⟩
        obtain h | ⟨-, h⟩ := h
        · cases h
        · exact absurd h hsame
    | failed effect =>
      rw [up_failed]
      obtain ⟨hfiles, hleft, hother⟩ :=
        suffer_spec (b := b) (meaning (b.compose.getD "")) effect
      refine ⟨hfiles, fun h => hleft ?_, fun h => hother fun he => h (.inl (he ▸ rfl))⟩
      obtain h | ⟨h, -⟩ := h
      · exact Answer.failed.inj h
      · cases h
  · rw [if_neg hrecreate, if_neg hrecreate]
    by_cases hchanged : found.config_changed = true
    · rw [if_pos hchanged]
      cases hc : b.container with
      | none =>
        rw [restart_none env.docker hc]
        exact ⟨rfl, fun _ => hc, fun _ c hsome _ => by cases hc.symm.trans hsome⟩
      | some c =>
        cases env.docker with
        | ok =>
          rw [restart_ok hc]
          exact ⟨rfl, fun h => (by cases h hchanged), fun _ => started_since_start _⟩
        | failed effect =>
          rw [restart_failed hc]
          obtain ⟨hfiles, hleft, hother⟩ := suffer_spec (b := b) c.service effect
          exact ⟨hfiles, fun h => (hleft (Answer.failed.inj (h hchanged))).trans hc,
            fun h => hother fun he => h fun _ => he ▸ rfl⟩
    · rw [if_neg hchanged]
      exact ⟨rfl, fun _ => rfl, fun h => absurd (fun hc => absurd hc hchanged) h⟩

/-- What keeps a container that runs as it is. -/
def Untouched (meaning : String → Service) (d : Deployment) (config_changed : Bool)
    (env : DeployEnv) (b : Box) : Prop :=
  env.read = false ∨ prepared d (drift d config_changed env b) env = false ∨
    LeftAlone meaning d (drift d config_changed env b) env.docker b

/-- What `deploy` does where nothing is missing. -/
theorem deploy_spec (meaning : String → Service) (config_changed : Bool) (env : DeployEnv)
    (hneeded : ∀ p ∈ d.needed, (b.files p).isSome) :
    (deploy meaning d config_changed false env b).1.files = b.files ∧
      (Untouched meaning d config_changed env b →
        (deploy meaning d config_changed false env b).1.container = b.container) ∧
      (¬ Untouched meaning d config_changed env b →
        StartedSince b.clock (deploy meaning d config_changed false env b).1) := by
  have hnone : ¬ (d.needed.any fun p => (b.files p).isNone) = true := by
    intro h
    obtain ⟨p, hp, hnone⟩ := List.any_eq_true.mp h
    rw [Option.isNone_iff_eq_none] at hnone
    have hsome := hneeded p hp
    rw [hnone] at hsome
    exact nomatch hsome
  rw [Untouched, deploy]
  set found := drift d config_changed env b
  by_cases hread : env.read = false
  · rw [if_pos hread]
    exact ⟨rfl, fun _ => rfl, fun h => absurd (.inl hread) h⟩
  rw [if_neg hread, if_neg hnone]
  by_cases hany : (!(found.recreate || found.config_changed || found.storage_missing)) = true
  · rw [if_pos hany]
    refine ⟨rfl, fun _ => rfl, fun h => absurd (.inr (.inr ?_)) h⟩
    obtain ⟨⟨hrecreate, hchanged⟩, -⟩ : (found.recreate = false ∧ found.config_changed = false) ∧
        found.storage_missing = false := by simpa using hany
    rw [LeftAlone, hrecreate, hchanged]
    exact fun h => nomatch h
  rw [if_neg hany, if_neg Bool.false_ne_true, carry_out]
  by_cases hprepared : prepared d found env = false
  · rw [if_pos hprepared]
    exact ⟨rfl, fun _ => rfl, fun h => absurd (.inr (.inl hprepared)) h⟩
  rw [if_neg hprepared]
  set b' : Box := { b with
    storage := b.storage || (found.storage_missing && env.makedirs), compose := composed d found b }
  have hcomposed : composed d found b' = composed d found b := by
    rw [composed, composed]
    split_ifs with hdrift
    · rfl
    · exact if_neg hdrift
  obtain ⟨hfiles, hleft, hother⟩ := command_spec (b := b') meaning env hcomposed.symm rfl
  have halone : LeftAlone meaning d found env.docker b' ↔
      LeftAlone meaning d found env.docker b := by
    rw [LeftAlone, LeftAlone, hcomposed]
    rfl
  rw [halone] at hleft hother
  refine ⟨hfiles, fun h => hleft ?_, fun h => hother fun hl => h (.inr (.inr hl))⟩
  obtain h | h | h := h
  · exact absurd h hread
  · exact absurd h hprepared
  · exact h

/-- Whatever happens, `deploy` leaves the files, and the container unless it is started anew. -/
theorem deploy_any (meaning : String → Service) (d : Deployment) (config_changed check : Bool)
    (env : DeployEnv) (b : Box) :
    (deploy meaning d config_changed check env b).1.files = b.files ∧
    ((deploy meaning d config_changed check env b).1.container = b.container ∨
      StartedSince b.clock (deploy meaning d config_changed check env b).1) := by
  by_cases hneeded : ∀ p ∈ d.needed, (b.files p).isSome
  · cases check with
    | false =>
      obtain ⟨hfiles, hleft, hother⟩ := deploy_spec meaning config_changed env hneeded
      exact ⟨hfiles, (em _).imp hleft hother⟩
    | true =>
      rw [deploy]
      split_ifs with hread hmissing htrue hquiet hcheck
      · exact ⟨rfl, .inl rfl⟩
      · exact ⟨rfl, .inl rfl⟩
      · exact ⟨rfl, .inl rfl⟩
      · exact ⟨rfl, .inl rfl⟩
      · exact ⟨rfl, .inl rfl⟩
      · exact absurd rfl hcheck
  · have hsome : (d.needed.any fun p => (b.files p).isNone) = true := by
      simpa using hneeded
    rw [deploy]
    by_cases hread : env.read = false
    · rw [if_pos hread]
      exact ⟨rfl, .inl rfl⟩
    · rw [if_neg hread, if_pos hsome]
      exact ⟨rfl, .inl rfl⟩

/-- What is found does not depend on the files. -/
theorem untouched_congr {b' : Box} (hcontainer : b'.container = b.container)
    (hcompose : b'.compose = b.compose) (hstorage : b'.storage = b.storage) :
    Untouched meaning d config_changed env b' ↔ Untouched meaning d config_changed env b := by
  have hdrift : drift d config_changed env b' = drift d config_changed env b := by
    rw [drift, drift, container_image, container_image, container_running, container_running,
      hcontainer, hcompose, hstorage]
  rw [Untouched, Untouched, hdrift, LeftAlone, LeftAlone, composed, composed, Box.runs, Box.runs,
    hcontainer, hcompose]

end Deploy

/-! ### The tasks of a container -/

namespace Part

/-- The files of a part. -/
def desired : Part → List (String × String)
  | .garage config_path toml _ => [(config_path, toml)]
  | .garage_ui config_path yaml _ _ _ => [(config_path, yaml)]
  | .git_lfs config_path config middleware_path middleware _ =>
    lfs_files config_path config middleware_path middleware

/-- Whether all of them are to be written again. -/
def stale : Part → Bool
  | .garage_ui _ _ key_missing owner_ok _ => key_missing || !owner_ok
  | _ => false

def tasks : Part → Tasks
  | .garage _ _ t => t
  | .garage_ui _ _ _ _ t => t
  | .git_lfs _ _ _ _ t => t

/-- Whether the second task is told what the first one has done; Garage's own is not. -/
def told : Part → Bool
  | .garage .. => false
  | _ => true

def deployment : Part → Deployment
  | .garage config_path _ t => ⟨t.compose, t.image, [config_path], false⟩
  | .garage_ui config_path _ _ _ t => ⟨t.compose, t.image, [config_path], false⟩
  | .git_lfs config_path _ middleware_path _ t =>
    ⟨t.compose, t.image, [config_path, middleware_path], true⟩

/-- The tasks of all containers are `render` and `deploy`. -/
theorem run_eq (meaning : String → Service) (part : Part) (b : Box) :
    part.run meaning b =
      andThen (render part.desired part.stale part.tasks.check part.tasks.render_env b)
        fun changed => deploy meaning part.deployment (part.told && changed) part.tasks.check
          part.tasks.deploy_env := by
  cases part with
  | garage config_path toml t => rfl
  | garage_ui config_path yaml key_missing owner_ok t => rfl
  | git_lfs config_path config middleware_path middleware t => rfl

/-- What the second task needs is what the first one renders. -/
theorem needed_rendered (part : Part) {p : String} (h : p ∈ part.deployment.needed) :
    ∃ file ∈ part.desired, file.1 = p := by
  cases part with
  | garage config_path toml t => exact ⟨_, List.mem_singleton_self _, (List.mem_singleton.mp h).symm⟩
  | garage_ui config_path yaml key_missing owner_ok t =>
    exact ⟨_, List.mem_singleton_self _, (List.mem_singleton.mp h).symm⟩
  | git_lfs config_path config middleware_path middleware t =>
    have h : p = config_path ∨ p = middleware_path := by simpa [deployment] using h
    rw [desired, lfs_files]
    split_ifs with hsame
    · refine ⟨_, List.mem_singleton_self _, ?_⟩
      obtain rfl | rfl := h
      · exact hsame.symm
      · rfl
    · obtain rfl | rfl := h
      · exact ⟨_, List.mem_cons_self, rfl⟩
      · exact ⟨_, List.mem_cons_of_mem _ List.mem_cons_self, rfl⟩
    · obtain rfl | rfl := h
      · exact ⟨_, List.mem_cons_of_mem _ List.mem_cons_self, rfl⟩
      · exact ⟨_, List.mem_cons_self, rfl⟩

/-- A file is written. -/
def Rewrites (part : Part) (b : Box) : Prop :=
  Writes part.desired part.stale part.tasks.check part.tasks.render_env b

/-- The container runs, and is left as it is: a write fails, or the second task does not get to
docker, or what it asks of docker, if anything, leaves the container alone. -/
def Keeps (meaning : String → Service) (part : Part) (b : Box) : Prop :=
  Runs b ∧ ((∃ n < (outdated part.desired part.stale b).length,
      part.tasks.render_env.write n = false) ∨
    Untouched meaning part.deployment part.told part.tasks.deploy_env b)

end Part

/-- A container that is started after all that has happened is fresh. -/
theorem fresh_of_started {b after : Box} (hfiles : after.files = b.files)
    (h : StartedSince b.clock after) : Fresh after := by
  intro c hc hrunning p file hp
  rw [hfiles] at hp
  exact Nat.lt_of_lt_of_le (b.files_old hp) (h c hc hrunning)

theorem fresh_congr {b after : Box} (hfiles : after.files = b.files)
    (hcontainer : after.container = b.container) : Fresh after ↔ Fresh b := by
  rw [Fresh, Fresh, hfiles, hcontainer]

/-- A container that runs is stale once a file was written. -/
theorem not_fresh_of_written {b after : Box} (hcontainer : after.container = b.container)
    (hruns : Runs b) (hwritten : WrittenSince b.clock after) : ¬ Fresh after := by
  intro hfresh
  obtain ⟨c, hc, hrunning⟩ := hruns
  obtain ⟨p, file, hp, htime⟩ := hwritten
  have hold := b.container_old hc
  have hnew := hfresh c (hcontainer.trans hc) hrunning p file hp
  omega

/-- `deploy` keeps a container fresh. -/
theorem deploy_fresh {meaning : String → Service} {d : Deployment} {config_changed check : Bool}
    {env : DeployEnv} {b : Box} (h : Fresh b) :
    Fresh (deploy meaning d config_changed check env b).1 := by
  obtain ⟨hfiles, hsame | hstarted⟩ := deploy_any meaning d config_changed check env b
  · exact (fresh_congr hfiles hsame).mpr h
  · exact fresh_of_started hfiles hstarted

/-- The tasks of a container leave it stale exactly if a file is written and the container, which
runs, is left as it is. -/
theorem part_fresh_iff {meaning : String → Service} {part : Part} {b : Box} (h : Fresh b) :
    Fresh (part.run meaning b).1 ↔ ¬ (part.Rewrites b ∧ part.Keeps meaning b) := by
  rw [Part.run_eq, Part.andThen]
  by_cases hrewrites : part.Rewrites b
  · have hcheck : part.tasks.check = false := hrewrites.apply
    obtain ⟨hcontainer, hcompose, hstorage⟩ :=
      write_all_frame (outdated part.desired part.stale b) part.tasks.render_env.write b
    have hsince : WrittenSince b.clock _ := write_all_since hrewrites.outdated hrewrites.first
    have hreport := write_all_report (outdated part.desired part.stale b)
      part.tasks.render_env.write b
    have hthere := render_there (b := b) part.desired part.stale part.tasks.render_env
    have hrender := render_of_writes hrewrites
    rw [hcheck] at hrender
    rw [hrender] at hthere
    rw [hcheck, hrender]
    set after := write_all part.tasks.render_env.write (outdated part.desired part.stale b) b
    have hruns : Runs after.1 ↔ Runs b := by rw [Runs, Runs, hcontainer]
    have hstale : ∀ {last : Box}, last.files = after.1.files →
        last.container = after.1.container → (Fresh last ↔ ¬ Runs b) := by
      intro last hfiles hsame
      constructor
      · intro hfresh hruns
        refine not_fresh_of_written (hsame.trans hcontainer) hruns ?_ hfresh
        rw [WrittenSince, hfiles]
        exact hsince
      · intro hnot c hc hrunning
        exact absurd ⟨c, hcontainer ▸ hsame ▸ hc, hrunning⟩ hnot
    have hkeeps : part.Keeps meaning b ↔ Runs b ∧ (after.2 = .fail ∨
        Untouched meaning part.deployment part.told part.tasks.deploy_env after.1) := by
      rw [untouched_congr hcontainer hcompose hstorage, hreport, Part.Keeps]
      refine and_congr_right fun _ => or_congr_left ?_
      split_ifs with hall
      · exact ⟨fun ⟨n, hn, hf⟩ => absurd (hall n hn) (by simp [hf]), fun h => nomatch h⟩
      · refine ⟨fun _ => rfl, fun _ => ?_⟩
        obtain ⟨n, hn⟩ := not_forall.mp hall
        obtain ⟨hlt, hf⟩ := Classical.not_imp.mp hn
        exact ⟨n, hlt, Bool.eq_false_iff.mpr hf⟩
    rw [hkeeps]
    by_cases hfail : after.2 = .fail
    · -- a write has failed, and there is no second task
      rw [if_pos hfail, hstale rfl rfl]
      exact ⟨fun hnot h => hnot h.2.1, fun hnot hruns => hnot ⟨hrewrites, hruns, .inl hfail⟩⟩
    · have hchanged : after.2.isChanged = true := by
        rw [hreport] at hfail ⊢
        split_ifs at hfail ⊢
        · rfl
        · exact absurd rfl hfail
      rw [if_neg hfail, hchanged, Bool.and_true]
      obtain ⟨hfiles, hleft, hother⟩ := deploy_spec meaning part.told part.tasks.deploy_env
        (d := part.deployment) (b := after.1) fun p hp => by
          obtain ⟨file, hfile, rfl⟩ := part.needed_rendered hp
          exact hthere hfail file hfile
      by_cases huntouched :
          Untouched meaning part.deployment part.told part.tasks.deploy_env after.1
      · rw [hstale hfiles (hleft huntouched)]
        exact ⟨fun hnot h => hnot h.2.1,
          fun hnot hruns => hnot ⟨hrewrites, hruns, .inr huntouched⟩⟩
      · refine iff_of_true (fresh_of_started hfiles (hother huntouched)) ?_
        rintro ⟨-, -, h | h⟩
        · exact hfail h
        · exact huntouched h
  · -- nothing is written
    refine iff_of_true ?_ fun h => hrewrites h.1
    have hsame := render_of_not_writes hrewrites
    split_ifs
    · rw [hsame]
      exact h
    · refine deploy_fresh ?_
      rw [hsame]
      exact h

/-! ### Plays -/

/-- Every container is fresh. -/
def AllFresh (s : Managed → Box) : Prop := ∀ m, Fresh (s m)

/-- No container is left behind by the tasks of a play that are run: no part writes a file and
leaves its container, which runs, as it is. -/
def NoneLeft (meaning : String → Service) : List Step → (Managed → Box) → Prop
  | [], _ => True
  | .other ok :: rest, s => ok = true → NoneLeft meaning rest s
  | .part part :: rest, s =>
    ¬ (part.Rewrites (s part.managed) ∧ part.Keeps meaning (s part.managed)) ∧
      ((part.run meaning (s part.managed)).2 ≠ .fail →
        NoneLeft meaning rest (Function.update s part.managed
          (part.run meaning (s part.managed)).1))

/-- The same of a sequence of plays, each of which may fail. -/
def NoneLeftBehind (meaning : String → Service) : List (List Step) → (Managed → Box) → Prop
  | [], _ => True
  | play :: plays, s =>
    NoneLeft meaning play s ∧ NoneLeftBehind meaning plays (run_play meaning play s).1

/-- One play. -/
theorem play_fresh {meaning : String → Service} (play : List Step) : ∀ {s : Managed → Box},
    AllFresh s → NoneLeft meaning play s → AllFresh (run_play meaning play s).1 := by
  induction play with
  | nil => exact fun h _ => h
  | cons step rest ih =>
    intro s hs hleft
    cases step with
    | other ok =>
      rw [run_play]
      split_ifs with hok
      · exact ih hs (hleft hok)
      · exact hs
    | part part =>
      obtain ⟨hpart, hrest⟩ := hleft
      have hafter : AllFresh (Function.update s part.managed
          (part.run meaning (s part.managed)).1) := by
        intro m
        by_cases hm : m = part.managed
        · rw [hm, Function.update_self]
          exact (part_fresh_iff (hs part.managed)).mpr hpart
        · rw [Function.update_of_ne hm]
          exact hs m
      rw [run_play]
      split_ifs with hfail
      · exact hafter
      · exact ih hafter (hrest hfail)

/-- Whatever fails, after each play of a run the containers are fresh, as long as none is left
behind. -/
theorem plays_fresh {meaning : String → Service} (plays : List (List Step)) :
    ∀ {s : Managed → Box}, AllFresh s → NoneLeftBehind meaning plays s →
      ∀ n, AllFresh (run_plays meaning (plays.take n) s) := by
  induction plays with
  | nil =>
    intro s hs _ n
    rw [List.take_nil]
    exact hs
  | cons play rest ih =>
    intro s hs hleft n
    cases n with
    | zero => exact hs
    | succ n => exact ih (play_fresh play hs hleft.1) hleft.2 n

/-! ### Another secret -/

/-- Everything is done, and answered. -/
def allDone (compose image : String) : Tasks where
  compose := compose
  image := image
  check := false
  render_env := ⟨true, fun _ => true⟩
  deploy_env := ⟨true, true, true, true, true, .ok⟩

/-- A NAS without containers. -/
def bare : Box where
  files := fun _ => none
  compose := none
  container := none
  storage := false
  clock := 0
  files_old := fun h => nomatch h
  container_old := fun h => nomatch h

/-- Garage's play, with a secret. -/
def garagePlay (secret : String) : List Step :=
  [.part (.garage "garage.toml" secret (allDone "compose" "garage:v2")), .other true]

/-- All images are Garage's. -/
def garageService (compose : String) : Service := ⟨"garage:v2", compose⟩

/-- Both plays succeed, and the container still runs on the first secret. -/
theorem secret_rotated :
    (run_play garageService (garagePlay "old") fun _ => bare).2 = true ∧
      (run_play garageService (garagePlay "new")
        (run_play garageService (garagePlay "old") fun _ => bare).1).2 = true ∧
      ¬ AllFresh (run_plays garageService [garagePlay "old", garagePlay "new"] fun _ => bare) := by
  refine ⟨by decide +kernel, by decide +kernel, fun hfresh => ?_⟩
  have hcontainer : (run_plays garageService [garagePlay "old", garagePlay "new"]
      (fun _ => bare) .garage).container = some ⟨⟨"garage:v2", "compose"⟩, true, 1⟩ := by
    decide +kernel
  have hfile : (run_plays garageService [garagePlay "old", garagePlay "new"]
      (fun _ => bare) .garage).files "garage.toml" = some ("new", 2) := by
    decide +kernel
  exact absurd (hfresh .garage _ hcontainer rfl _ _ hfile) (by decide)

/-- The play of garage-ui, with a secret; its second task is told. -/
def uiPlay (secret : String) : List Step :=
  [.part (.garage_ui "config.yaml" secret false true (allDone "compose" "garage:v2"))]

/-- A new secret of garage-ui is followed by a restart. -/
theorem plays_fresh_ui :
    AllFresh (run_plays garageService [uiPlay "old", uiPlay "new"] fun _ => bare) := by
  have hbare : AllFresh fun _ => bare := fun m c hc => absurd hc (Option.some_ne_none c).symm
  refine plays_fresh [uiPlay "old", uiPlay "new"] hbare ⟨⟨?_, fun _ => trivial⟩,
    ⟨?_, fun _ => trivial⟩, trivial⟩ 2
  · rintro ⟨-, ⟨c, hc, -⟩, -⟩
    exact nomatch hc
  · rintro ⟨-, -, ⟨n, -, hn⟩ | hn | hn | hleft⟩
    · exact nomatch hn
    · exact nomatch hn
    · exact absurd hn (by decide +kernel)
    · have hfound : drift (Part.deployment (.garage_ui "config.yaml" "new" false true
          (allDone "compose" "garage:v2"))) true ⟨true, true, true, true, true, .ok⟩
          ((run_play garageService (uiPlay "old") fun _ => bare).1 .garage_ui) =
            ⟨false, false, false, true, false⟩ := by
        decide +kernel
      have hleft : LeftAlone _ _ (drift _ _ _ _) _ _ := hleft
      rw [LeftAlone] at hleft
      exact nomatch (hfound ▸ hleft) rfl

end NasContainers
