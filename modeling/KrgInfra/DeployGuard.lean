/-
The generate-once guard of the secrets target.

Before it applies the secrets target, the script asks OpenBao for every path that the plan
is to create; if one is there it refuses.  So where the guard's questions are answered, an
apply creates no secret over an existing one, and a stored value is replaced only by a
change that is meant to touch what is there: an update, a replacement, a deletion.  Those
the guard does not look at.

* `Spares`, `Meant` — an apply that keeps every stored value, and one that creates nothing
  over a path that exists and replaces values only where its plan updates or deletes them;
* `guard_rule_answered` — what the guard establishes;
* `secrets_apply_meant` — every apply of the secrets target, in every run.
-/
import KrgInfra.DeployFailFast

namespace DeployTofu

/-! ### What changes leave as it is -/

section Carry

variable {store : Store} {path : String}

/-- A change that is not about the KV secret at `path` leaves it as it is. -/
theorem Change.carry_other {c : Change}
    (h : ¬ (c.type = "vault_kv_secret_v2" ∧ c.kvpath = path)) : c.carry store path = store path := by
  unfold Change.carry
  split_ifs with ht
  · have hne : path ≠ c.kvpath := fun he => h ⟨ht, he.symm⟩
    have hact : ∀ (store : Store) a, c.act store a path = store path := by
      intro store a
      cases a with
      | create => exact Function.update_of_ne hne _ _
      | update => exact Function.update_of_ne hne _ _
      | delete => exact Function.update_of_ne hne _ _
      | noop => rfl
      | read => rfl
    have hfold : ∀ (l : List ChangeAction) (store : Store), l.foldl c.act store path = store path := by
      intro l
      induction l with
      | nil => exact fun _ => rfl
      | cons a l ih => exact fun store => (ih _).trans (hact store a)
    exact hfold c.actions store
  · rfl

/-- A change that creates, updates and deletes nothing leaves the store as it is. -/
theorem Change.carry_idle {c : Change} (h : c.actions = [.noop] ∨ c.actions = [.read]) :
    c.carry store = store := by
  unfold Change.carry
  split_ifs
  · obtain h | h := h <;> rw [h] <;> rfl
  · rfl

/-- What OpenTofu may write as `actions`: a bare create, nothing at all, or an update or a
deletion among others. -/
theorem Change.actions_cases (c : Change) :
    c.actions = [.create] ∨ (c.actions = [.noop] ∨ c.actions = [.read]) ∨
      (.update ∈ c.actions ∨ .delete ∈ c.actions) := by
  have hcases : ∀ l ∈ documentedActions, l = [.create] ∨ (l = [.noop] ∨ l = [.read]) ∨
      (ChangeAction.update ∈ l ∨ ChangeAction.delete ∈ l) := by
    decide
  exact hcases c.actions c.documented

theorem carry_all_keeps {changes : List Change}
    (h : ∀ c ∈ changes, ∀ store : Store, c.carry store path = store path) :
    changes.foldl Change.carry store path = store path := by
  induction changes generalizing store with
  | nil => rfl
  | cons c changes ih =>
    obtain ⟨hc, hcs⟩ := List.forall_mem_cons.mp h
    exact (ih hcs).trans (hc store)

end Carry

/-- The apply keeps every stored value. -/
def Spares (a : Applied) : Prop :=
  ∀ path field value, a.before.field path field = some value →
    a.after.field path field = some value

/-- The change is to the KV secret at `path`. -/
def Change.Concerns (c : Change) (path : String) : Prop :=
  c.type = "vault_kv_secret_v2" ∧ c.kvpath = path

/-- The apply's plan creates nothing anew at a path that exists, and where the apply does not
keep a stored value, its plan updates or deletes the secret at that path (a replacement does
the latter). -/
structure Meant (a : Applied) : Prop where
  not_created : ∀ path, a.before path ≠ none →
    ∀ c ∈ a.changes, c.Concerns path → c.actions ≠ [.create]
  replaced : ∀ path field value, a.before.field path field = some value →
    a.after.field path field ≠ some value →
    ∃ c ∈ a.changes, c.Concerns path ∧ (.update ∈ c.actions ∨ .delete ∈ c.actions)

/-- The guard's questions are answered: its plan, its `tofu show` and its lookups. -/
structure Answered (env : DeployEnv) : Prop where
  plan : ∀ n, env.outcome (.step n .guardPlan) = .ok
  shown : ∀ n, env.outcome (.showPlan n) = .ok
  metadata : ∀ n path, env.outcome (.metadata n path) = .ok

section Rules

variable {τ : Type} {tofu : OpenTofu τ} {env : DeployEnv} {cfg : Config} {n : ℕ}

/-- Every apply of the secrets target so far was meant. -/
def AllMeant (w : TofuWorld τ) : Prop := ∀ a ∈ w.applies, a.target = "secrets" → Meant a

/-- What is to be created for `target` is not there. -/
def Clear (tofu : OpenTofu τ) (target : String) (w : TofuWorld τ) : Prop :=
  ∀ path ∈ creates (tofu.plan target (w.state target) w.store), w.store path = none

theorem Clear.not_created {target : String} {w : TofuWorld τ} (h : Clear tofu target w)
    {path : String} (hpath : w.store path ≠ none) {c : Change}
    (hc : c ∈ tofu.plan target (w.state target) w.store) (hp : c.Concerns path) :
    c.actions ≠ [.create] := by
  intro ha
  have hmem : path ∈ creates (tofu.plan target (w.state target) w.store) := by
    rw [← hp.2]
    exact List.mem_map_of_mem (List.mem_filter.mpr ⟨hc, by simp [hp.1, ha]⟩)
  exact hpath (h path hmem)

/-- An apply of a plan that creates only what is not there. -/
theorem meant_of_clear {target : String} {w : TofuWorld τ} (h : Clear tofu target w)
    {carried : List Change}
    (hc : ∀ c ∈ carried, c ∈ tofu.plan target (w.state target) w.store) :
    Meant ⟨target, tofu.plan target (w.state target) w.store, w.store,
      carried.foldl Change.carry w.store⟩ := by
  refine ⟨fun path hpath c => h.not_created hpath, ?_⟩
  intro path field value hbefore hafter
  have hpath : w.store path ≠ none := fun he => by simp [Store.field, he] at hbefore
  by_contra hnone
  -- with no update and no deletion at the path, every change carried out leaves it
  have hkeeps : ∀ c ∈ carried, ∀ store : Store, c.carry store path = store path := by
    intro c hcm store
    by_cases hp : c.Concerns path
    · obtain hcreate | hidle | hmeant := c.actions_cases
      · exact absurd hcreate (h.not_created hpath (hc c hcm) hp)
      · rw [Change.carry_idle hidle]
      · exact absurd ⟨c, hc c hcm, hp, hmeant⟩ hnone
    · exact Change.carry_other hp
  refine hafter ?_
  show ((carried.foldl Change.carry w.store) path).bind _ = some value
  rw [carry_all_keeps hkeeps]
  exact hbefore

/-- The lookups: none of the paths is there if none is found. -/
theorem clobbered_rule_answered (hans : Answered env) (paths : List String) :
    ∀ {P : TofuWorld τ → Prop} {E : ℕ → TofuWorld τ → Prop},
    Triple AllMeant P (clobbered env n paths)
      (fun found w => P w ∧ (found = [] → ∀ path ∈ paths, w.store path = none)) E := by
  induction paths with
  | nil => exact Triple.pure fun w _ h => ⟨h, by simp⟩
  | cons path paths ih =>
    intro P E
    refine Triple.bind (Q := fun found w => P w ∧ (found = none → w.store path = none))
      (Triple.run_query ?_ ?_) fun found => ?_
    · exact fun w _ _ h _ => ⟨h, nofun⟩
    · intro w _ h herr
      refine ⟨h, fun _ => ?_⟩
      obtain ⟨e, he⟩ := herr (hans.metadata n path)
      cases hs : w.store path with
      | none => rfl
      | some data => simp [hs] at he
    · refine Triple.bind ih fun rest => Triple.pure ?_
      rintro w - ⟨⟨h, hfound⟩, hrest⟩
      refine ⟨h, fun hnil => ?_⟩
      cases found with
      | none => exact List.forall_mem_cons.mpr ⟨hfound rfl, hrest (by simpa using hnil)⟩
      | some _ => simp at hnil

/-- **The guard.**  It lets the secrets target go on only if nothing that is to be created
is there. -/
theorem guard_rule_answered (hans : Answered env) (happrove : cfg.approve = "")
    (hreplace : cfg.replace = "") {target : String} :
    Triple AllMeant AllMeant (guard tofu env cfg n target)
      (fun _ w => target = "secrets" → Clear tofu target w) fun _ _ => True := by
  unfold guard
  split_ifs with hguard
  · refine Triple.bind (Q := fun planned _ => planned = true) ?_ fun planned => ?_
    · refine Triple.bind (Q := fun done _ => done.isSome = true) ?_ fun done => ?_
      · refine Triple.run (fun _ h _ => h) (fun _ _ _ _ _ => rfl) (fun _ _ _ _ he => absurd he (by simp)) ?_
        intro e done w ho
        exact nomatch (hans.plan n).symm.trans ho
      · refine Triple.bind (Q := fun _ _ => done.isSome = true)
          (Triple.note fun w h hd => ⟨h, hd⟩) fun _ => ?_
        exact Triple.pure fun _ _ h => h
    · cases planned with
      | false => exact Triple.pure fun _ _ h => nomatch h
      | true =>
        refine Triple.bind (Q := fun paths w =>
          paths = some (creates (tofu.plan target (w.state target) w.store)))
          (Triple.run_query ?_ ?_) fun paths => ?_
        · rintro w paths - - he
          rw [Except.ok.inj he]
        · intro w _ _ herr
          obtain ⟨e, he⟩ := herr (hans.shown n)
          exact nomatch he
        · refine Triple.bind (clobbered_rule_answered hans _) fun found => ?_
          show Triple _ _ (if _ then _ else _) _ _
          split_ifs with hfound
          · exact Triple.exit fun _ _ _ => trivial
          · refine Triple.pure ?_
            rintro w - ⟨hpaths, hnone⟩ -
            rw [hpaths] at hnone
            exact hnone (not_not.mp hfound)
  · exact Triple.pure fun w _ _ ht => absurd ⟨ht, happrove, hreplace⟩ hguard

/-- The apply of a target for which the guard has been asked. -/
theorem apply_rule {target : String} {E : ℕ → TofuWorld τ → Prop} :
    Triple AllMeant (fun w => target = "secrets" → Clear tofu target w)
      (last_step env n .apply (apply_changes tofu env n target)) (fun _ _ => True) E := by
  refine Triple.bind (Q := fun _ _ => True) (Triple.status ?_ (fun _ _ _ _ => trivial)
    (fun _ _ _ _ he => absurd he (by simp)) fun _ _ _ _ _ _ => trivial) fun rc => ?_
  · intro w hw hclear a ha ht
    obtain ha | ha := List.mem_append.mp ha
    · exact hw a ha ht
    · obtain rfl := List.mem_singleton.mp ha
      refine meant_of_clear (hclear ht) fun c hc => ?_
      split_ifs at hc
      · exact hc
      · exact List.mem_of_mem_take hc
  · refine Triple.bind (Q := fun _ _ => True) (Triple.note fun w hw _ => ⟨hw, trivial⟩) fun _ => ?_
    exact Triple.pure fun _ _ h => h

theorem meant_step_rule {s : Step} {E : ℕ → TofuWorld τ → Prop} :
    Triple AllMeant AllMeant (step env n s id) (fun _ => AllMeant) E :=
  step_rule (fun _ h => h) (fun _ h => h) fun _ _ h => h

/-- The subshell of a target. -/
theorem target_body_meant (hans : Answered env) (happrove : cfg.approve = "")
    (hreplace : cfg.replace = "") {token : Bool} {target : String} :
    Triple AllMeant AllMeant (target_body tofu env cfg token n target) (fun _ _ => True)
      fun _ _ => True := by
  refine Triple.bind materialize_rule fun there => ?_
  show Triple _ _ (if _ then _ else if _ then _ else _) _ _
  split_ifs
  · refine Triple.bind (Q := fun _ _ => True) (Triple.note fun w h _ => ⟨h, trivial⟩) fun _ => ?_
    exact Triple.exit fun _ _ _ => trivial
  · exact Triple.exit fun _ _ _ => trivial
  · refine Triple.bind meant_step_rule fun _ => ?_
    refine Triple.bind meant_step_rule fun _ => ?_
    refine Triple.bind meant_step_rule fun _ => ?_
    refine Triple.bind (import_secrets_rule (P := AllMeant) (fun _ h => h) (fun _ _ _ h => h)
      (fun _ _ _ h => h) _ _) fun _ => ?_
    show Triple _ _ (if _ then _ else _) _ _
    split_ifs
    · refine Triple.bind (Q := fun _ _ => True) (Triple.status (fun _ h _ => h)
        (fun _ _ _ _ => trivial) (fun _ _ _ _ he => absurd he (by simp)) fun _ _ _ _ _ _ => trivial)
        fun _ => ?_
      refine Triple.bind (Q := fun _ _ => True) (Triple.note fun w h _ => ⟨h, trivial⟩) fun _ => ?_
      exact Triple.pure fun _ _ _ => trivial
    · exact Triple.bind (guard_rule_answered hans happrove hreplace) fun _ => apply_rule

theorem deploy_tofu_meant (hans : Answered env) (happrove : cfg.approve = "")
    (hreplace : cfg.replace = "") :
    Triple AllMeant (fun _ => True) (deploy_tofu tofu env cfg) (fun _ _ => True)
      fun _ _ => True := by
  have htarget : ∀ token n target, Triple AllMeant (fun _ => True)
      (deploy_target tofu env cfg token n target) (fun _ _ => True) fun _ _ => True := by
    intro token n target
    refine Triple.bind (Q := fun _ => AllMeant) (Triple.note fun w h _ => ⟨h, h⟩) fun _ => ?_
    show Triple _ _ (if _ then _ else _) _ _
    split_ifs
    · exact Triple.note fun w h _ => ⟨h, trivial⟩
    · refine Triple.bind (Triple.subshell (target_body_meant hans happrove hreplace)) fun rc => ?_
      show Triple _ _ (if _ then _ else _) _ _
      split_ifs
      · refine Triple.bind (Q := fun _ _ => True) (Triple.note fun w h _ => ⟨h, trivial⟩) fun _ => ?_
        exact Triple.exit fun _ _ _ => trivial
      · exact Triple.pure fun _ _ _ => trivial
  have htargets : ∀ token targets n, Triple AllMeant (fun _ => True)
      (deploy_targets tofu env cfg token n targets) (fun _ _ => True) fun _ _ => True := by
    intro token targets
    induction targets with
    | nil => exact fun n => Triple.pure fun _ _ _ => trivial
    | cons target targets ih => exact fun n => Triple.bind (htarget token n target) fun _ => ih (n + 1)
  unfold deploy_tofu
  by_cases hnil : cfg.targets = []
  · rw [if_pos hnil]
    exact Triple.pure fun _ _ _ => trivial
  rw [if_neg hnil]
  refine Triple.bind (Q := fun _ _ => True) ?_ fun token => ?_
  · unfold login
    split_ifs
    · refine Triple.bind (read_rule (P := fun _ => True)) fun t => ?_
      cases t with
      | none => exact Triple.exit fun _ _ _ => trivial
      | some _ => exact Triple.pure fun _ _ _ => trivial
    · exact Triple.pure fun _ _ _ => trivial
  · show Triple _ _ (if _ then _ else _) _ _
    split_ifs
    · exact Triple.exit fun _ _ _ => trivial
    · exact htargets token cfg.targets 0

/-- **The generate-once guard.**  With neither TOFU_SECRETS_APPROVE nor TOFU_REPLACE set, and
the guard's questions answered, the plan of an apply of the secrets target creates no secret
anew whose path exists, and the apply replaces a stored value only where its plan updates,
replaces or deletes the secret at that path.  Whatever else fails, and whatever is imported. -/
theorem secrets_apply_meant (tofu : OpenTofu τ) (env : DeployEnv) (cfg : Config)
    (w : TofuWorld τ) (hw : w.applies = []) (hans : Answered env) (happrove : cfg.approve = "")
    (hreplace : cfg.replace = "") :
    ∀ w' ∈ (outcomeOf (deploy_tofu tofu env cfg) w).2.states, ∀ a ∈ w'.applies,
      a.target = "secrets" → Meant a := by
  have hstart : AllMeant w := by
    intro a ha
    rw [hw] at ha
    exact nomatch ha
  exact ((deploy_tofu_meant hans happrove hreplace).of_start hstart trivial).1

end Rules

/-! ### A value replaced by an update -/

def outline_path : String := "secret/krg-prod/authentik-managed/outline"

/-- The state has lost the password, and knows the secret: it is to be updated. -/
def forgetful : OpenTofu Unit where
  plan _ _ _ := [⟨"vault_kv_secret_v2.outline", "vault_kv_secret_v2", [.update], "secret",
    "krg-prod/authentik-managed/outline", [("db_password", "new")], by decide⟩]
  addresses _ := []
  imported _ _ _ := ()
  applied _ _ _ := ()

def provisioned : TofuWorld Unit where
  store path := if path = outline_path then some [("db_password", "old")] else none
  state _ := ()

def secrets_only : Config := { targets := ["secrets"], passphrase := "p" }

/-- Nothing fails, the guard passes, and the apply replaces the stored password. -/
theorem update_not_guarded :
    ¬ ∀ w' ∈ (outcomeOf (deploy_tofu forgetful {} secrets_only) provisioned).2.states,
      ∀ a ∈ w'.applies, a.target = "secrets" → Spares a := by
  intro h
  have hrun : (outcomeOf (deploy_tofu forgetful {} secrets_only) provisioned).2.now.applies.map
      (fun a => (a.target, a.before.field outline_path "db_password",
        a.after.field outline_path "db_password")) = [("secrets", some "old", some "new")] := by
    decide +kernel
  obtain ⟨a, ha, hvals⟩ := List.map_eq_singleton_iff.mp hrun
  obtain ⟨ht, hvals⟩ := Prod.mk.inj hvals
  obtain ⟨hbefore, hafter⟩ := Prod.mk.inj hvals
  have hspares := h _ (Trace.now_mem _) a (by rw [ha]; simp) ht _ _ _ hbefore
  rw [hafter] at hspares
  exact absurd hspares (by decide)

/-- The same plan, run as the guard's own theorem sees it. -/
theorem secrets_apply_meant_update : provisioned.applies = [] ∧
    ∀ w' ∈ (outcomeOf (deploy_tofu forgetful {} secrets_only) provisioned).2.states,
      ∀ a ∈ w'.applies, a.target = "secrets" → Meant a :=
  ⟨rfl, secrets_apply_meant forgetful {} secrets_only provisioned rfl
    ⟨fun _ => rfl, fun _ => rfl, fun _ _ => rfl⟩ rfl rfl⟩

end DeployTofu
