/-
stage-tenant-secret-zero: what a run leaves on the instances.

* `Kept` — what every world of a run has kept: an instance is given credentials of its own role
  only, and a token only if its runner was not confirmed to be registered;
* `Result` — what has become of an instance, by whether anything has failed on it;
* `stage_instance_rule`, `stage_instances_rule`, `stage_tenants_rule` — one instance, the loop,
  and the run;
* `tenants_given_own`, `tenants_served` — the properties of a run.
-/
import KrgInfra.TenantStaging

namespace TenantStaging

/-! ### What has been added to a log -/

/-- `x` is in what was added to `l₀`. -/
def Since {α : Type} (l₀ l : List α) (x : α) : Prop := ∃ new, l = l₀ ++ new ∧ x ∈ new

theorem Since.mono {α : Type} {l₀ l l' : List α} {x : α} (h : Since l₀ l x) (hl : l <+: l') :
    Since l₀ l' x := by
  obtain ⟨new, rfl, hx⟩ := h
  obtain ⟨more, rfl⟩ := hl
  exact ⟨new ++ more, List.append_assoc .., List.mem_append_left _ hx⟩

theorem since_concat {α : Type} {l₀ l : List α} (h : l₀ <+: l) (x : α) : Since l₀ (l ++ [x]) x := by
  obtain ⟨new, rfl⟩ := h
  exact ⟨new ++ [x], List.append_assoc .., List.mem_append_right _ (List.mem_singleton_self x)⟩

theorem not_since_refl {α : Type} {l : List α} {x : α} : ¬ Since l l x := by
  rintro ⟨new, hl, hx⟩
  rw [List.self_eq_append_right.mp hl] at hx
  exact absurd hx List.not_mem_nil

/-- What was added with one more entry. -/
theorem Since.of_concat {α : Type} {l₀ l : List α} {x y : α} (hl : l₀ <+: l)
    (h : Since l₀ (l ++ [y]) x) : Since l₀ l x ∨ x = y := by
  obtain ⟨old, rfl⟩ := hl
  obtain ⟨new, hnew, hx⟩ := h
  rw [List.append_assoc, List.append_cancel_left_eq] at hnew
  rw [← hnew] at hx
  exact (List.mem_append.mp hx).imp (fun h => ⟨old, rfl, h⟩) List.mem_singleton.mp

section Spec

variable (svc : Services) (env : StagingEnv) (w₀ w : Tenancy) (i : Instance)

/-- The repository of an instance, as the script has it. -/
def repoOf : String := captured ((env.answer (.repo i) (.ok (svc.krg_repo i))).getD (env.usage i))

/-- The runner was confirmed to be registered. -/
def Confirmed : Prop :=
  env.answer (.credentials i) (has_credentials w₀ i) = some () ∧
    env.answer (.registered i) (is_registered svc (repoOf svc env i) i) = some ()

/-- The instance has the role-id of its role. -/
def RoleStaged : Prop :=
  ∃ rid, svc.roleId i.role = some rid ∧ w.files i ROLE_ID = some ⟨captured rid, "0644"⟩

/-- The instance has a secret-id that this run has minted for its role. -/
def SecretStaged : Prop :=
  ∃ sid, Since w₀.minted w.minted (i.role, sid) ∧
    w.files i SECRET_ID = some ⟨captured sid, "0600"⟩

/-- The instance has a token that this run has minted for its repository. -/
def TokenStaged : Prop :=
  ∃ token, Since w₀.tokens w.tokens (repoOf svc env i, token) ∧ captured token ≠ "" ∧
    w.files i REGISTRATION_TOKEN = some ⟨captured token, "0600"⟩

/-- What a run may leave in a file of an instance. -/
def Given (path : String) : Prop :=
  path = ROLE_ID ∧ RoleStaged svc w i ∨ path = SECRET_ID ∧ SecretStaged w₀ w i ∨
    path = REGISTRATION_TOKEN ∧ TokenStaged svc env w₀ w i ∧ ¬ Confirmed svc env w₀ i

/-- What every world of a run has kept, of the one that it started in. -/
structure Kept : Prop where
  minted : w₀.minted <+: w.minted
  tokens : w₀.tokens <+: w.tokens
  app : ∀ t, Since w₀.tokens w.tokens t → ∃ n, svc.registration t.1 n = some t.2
  files : ∀ i path, w.files i path = w₀.files i path ∨
    i ∈ svc.instances ∧ Given svc env w₀ w i path

/-- Some attempt to push both credentials succeeds. -/
def Pushable (n k : ℕ) : Prop :=
  ∃ j, k ≤ j ∧ j < k + n ∧ env.outcome (.pushRole i j) = .ok ∧ env.outcome (.pushSecret i j) = .ok

/-- OpenBao has answered for the role of the instance. -/
def RoleRead : Prop := i.name ≠ "" ∧ env.outcome (.roleId i) = .ok ∧ ∃ rid, svc.roleId i.role = some rid

/-- The instance is in want of a token, and its repository and the App give one. -/
structure Tokenable : Prop where
  repo : is_repo (repoOf svc env i) = true
  unconfirmed : ¬ Confirmed svc env w₀ i
  minted : env.outcome (.mintToken i) = .ok
  token : ∀ n, ∃ token, svc.registration (repoOf svc env i) n = some token ∧ captured token ≠ ""
  pushed : env.outcome (.pushToken i) = .ok

/-- What has become of an instance, if `ok` says whether anything has failed on it. -/
structure Result (ok : Bool) : Prop where
  staged : RoleRead svc env i →
    ok = true ∨ env.outcome (.secretId i) = .ok ∧ Pushable env i 6 0 →
      RoleStaged svc w i ∧ SecretStaged w₀ w i
  token : RoleRead svc env i → env.outcome (.secretId i) = .ok → Tokenable svc env w₀ i →
    TokenStaged svc env w₀ w i

end Spec

section Rules

variable {svc : Services} {env : StagingEnv} {w₀ w w₁ w' : Tenancy} {i j : Instance}
  {E : ℕ → Tenancy → Prop}

/-! ### The files -/

/-- The runner's own file is none of those that are pushed. -/
theorem credentials_ne (i : Instance) : i.credentials ≠ ROLE_ID ∧ i.credentials ≠ SECRET_ID ∧
    i.credentials ≠ REGISTRATION_TOKEN := by
  have hchar : i.credentials.toList[9]? = some 'g' := by
    simp [Instance.credentials, RUNNER_STATE_DIR]
  refine ⟨fun h => ?_, fun h => ?_, fun h => ?_⟩
  all_goals
    rw [h] at hchar
    exact absurd hchar (by decide)

/-- What is said of an instance is said of its own files and of the logs. -/
theorem Given.of_eq {path : String} (hg : Given svc env w₀ w i path)
    (hfile : w'.files i path = w.files i path) (hm : w.minted <+: w'.minted)
    (ht : w.tokens <+: w'.tokens) : Given svc env w₀ w' i path := by
  obtain ⟨rfl, rid, hrid, hf⟩ | ⟨rfl, sid, hsid, hf⟩ | ⟨rfl, ⟨token, htoken, hne, hf⟩, hc⟩ := hg
  · exact .inl ⟨rfl, rid, hrid, hfile.trans hf⟩
  · exact .inr (.inl ⟨rfl, sid, hsid.mono hm, hfile.trans hf⟩)
  · exact .inr (.inr ⟨rfl, ⟨token, htoken.mono ht, hne, hfile.trans hf⟩, hc⟩)

theorem Result.of_eq {ok : Bool} (hr : Result svc env w₀ w i ok) (hfile : w'.files i = w.files i)
    (hm : w.minted <+: w'.minted) (ht : w.tokens <+: w'.tokens) : Result svc env w₀ w' i ok where
  staged hread hok := by
    obtain ⟨⟨rid, hrid, hf⟩, sid, hsid, hf'⟩ := hr.staged hread hok
    rw [← hfile] at hf hf'
    exact ⟨⟨rid, hrid, hf⟩, sid, hsid.mono hm, hf'⟩
  token hread hok hwant := by
    obtain ⟨token, htoken, hne, hf⟩ := hr.token hread hok hwant
    rw [← hfile] at hf
    exact ⟨token, htoken.mono ht, hne, hf⟩

namespace Kept

theorem refl (w₀ : Tenancy) : Kept svc env w₀ w₀ :=
  ⟨List.prefix_rfl, List.prefix_rfl, fun _ h => absurd h not_since_refl, fun _ _ => .inl rfl⟩

/-- A run leaves the runner's own file alone. -/
theorem credentials (hk : Kept svc env w₀ w) (i : Instance) :
    w.files i i.credentials = w₀.files i i.credentials := by
  obtain ⟨h₁, h₂, h₃⟩ := credentials_ne i
  obtain h | ⟨-, ⟨h, -⟩ | ⟨h, -⟩ | ⟨h, -⟩⟩ := hk.files i i.credentials
  · exact h
  · exact absurd h h₁
  · exact absurd h h₂
  · exact absurd h h₃

theorem mint (hk : Kept svc env w₀ w) (role : String × String) :
    Kept svc env w₀ { w with minted := w.minted ++ [role] } where
  minted := hk.minted.trans (List.prefix_append _ _)
  tokens := hk.tokens
  app := hk.app
  files i path := (hk.files i path).imp_right fun h =>
    ⟨h.1, h.2.of_eq rfl (List.prefix_append _ _) List.prefix_rfl⟩

theorem token (hk : Kept svc env w₀ w) {token : String × String}
    (hn : svc.registration token.1 w.tokens.length = some token.2) :
    Kept svc env w₀ { w with tokens := w.tokens ++ [token] } where
  minted := hk.minted
  tokens := hk.tokens.trans (List.prefix_append _ _)
  app t ht := by
    obtain ht | rfl := ht.of_concat hk.tokens
    · exact hk.app t ht
    · exact ⟨_, hn⟩
  files i path := (hk.files i path).imp_right fun h =>
    ⟨h.1, h.2.of_eq rfl List.prefix_rfl (List.prefix_append _ _)⟩

/-- A push of what the instance may be given. -/
theorem push (hk : Kept svc env w₀ w) {path : String} {file : File} (hi : i ∈ svc.instances)
    (hg : Given svc env w₀ (w.push i path file) i path) : Kept svc env w₀ (w.push i path file) where
  minted := hk.minted
  tokens := hk.tokens
  app := hk.app
  files j p := by
    by_cases h : j = i ∧ p = path
    · obtain ⟨rfl, rfl⟩ := h
      exact .inr ⟨hi, hg⟩
    · have hsame : (w.push i path file).files j p = w.files j p :=
        Tenancy.files_push_of_ne (not_and_or.mp h)
      exact (hk.files j p).imp hsame.trans fun hj =>
        ⟨hj.1, hj.2.of_eq hsame List.prefix_rfl List.prefix_rfl⟩

end Kept

/-! ### One instance -/

/-- From `w₁` on only the token of `i` has changed, and tokens were minted. -/
structure Tokened (w₁ : Tenancy) (i : Instance) (w : Tenancy) : Prop where
  files : ∀ j path, j ≠ i ∨ path ≠ REGISTRATION_TOKEN → w.files j path = w₁.files j path
  minted : w.minted = w₁.minted
  tokens : w₁.tokens <+: w.tokens

namespace Tokened

theorem refl (w₁ : Tenancy) (i : Instance) : Tokened w₁ i w₁ :=
  ⟨fun _ _ _ => rfl, rfl, List.prefix_rfl⟩

theorem push (ht : Tokened w₁ i w) (file : File) :
    Tokened w₁ i (w.push i REGISTRATION_TOKEN file) where
  files j path h := (Tenancy.files_push_of_ne h).trans (ht.files j path h)
  minted := ht.minted
  tokens := ht.tokens

theorem token (ht : Tokened w₁ i w) (token : String × String) :
    Tokened w₁ i { w with tokens := w.tokens ++ [token] } :=
  ⟨ht.files, ht.minted, ht.tokens.trans (List.prefix_append _ _)⟩

end Tokened

/-- From `w₁` on only the files of `i` have changed, and the logs have grown. -/
structure Framed (w₁ : Tenancy) (i : Instance) (w : Tenancy) : Prop where
  files : ∀ j, j ≠ i → w.files j = w₁.files j
  minted : w₁.minted <+: w.minted
  tokens : w₁.tokens <+: w.tokens

namespace Framed

theorem refl (w₁ : Tenancy) (i : Instance) : Framed w₁ i w₁ :=
  ⟨fun _ _ => rfl, List.prefix_rfl, List.prefix_rfl⟩

theorem push (hf : Framed w₁ i w) (path : String) (file : File) :
    Framed w₁ i (w.push i path file) where
  files j hj := (Function.update_of_ne hj ..).trans (hf.files j hj)
  minted := hf.minted
  tokens := hf.tokens

theorem mint (hf : Framed w₁ i w) (role : String × String) :
    Framed w₁ i { w with minted := w.minted ++ [role] } :=
  ⟨hf.files, hf.minted.trans (List.prefix_append _ _), hf.tokens⟩

theorem trans_tokened (hf : Framed w₁ i w) (ht : Tokened w i w') : Framed w₁ i w' where
  files j hj := (funext fun path => ht.files j path (.inl hj)).trans (hf.files j hj)
  minted := ht.minted ▸ hf.minted
  tokens := hf.tokens.trans ht.tokens

end Framed

/-- A push of what the instance may be given. -/
theorem file_push_rule {site : Site} {path mode content : String} {P : Tenancy → Prop}
    (hi : i ∈ svc.instances)
    (hg : ∀ w, P w → Given svc env w₀ (w.push i path ⟨content, mode⟩) i path)
    (hP : ∀ w, P w → P (w.push i path ⟨content, mode⟩)) :
    Triple (Kept svc env w₀) P (file_push env site i path mode content)
      (fun ok w => P w ∧ (ok = true → w.files i path = some ⟨content, mode⟩) ∧
        (env.outcome site = .ok → ok = true)) E := by
  refine Triple.bind (Q := fun done w => P w ∧
    (done.isSome = true → w.files i path = some ⟨content, mode⟩) ∧
    (env.outcome site = .ok → done.isSome = true)) (Triple.run ?_ ?_ ?_ ?_) fun done =>
      Triple.pure fun _ _ h => h
  · exact fun w hk hp => hk.push hi (hg w hp)
  · exact fun w a hk hp ha => ⟨hP w hp, fun _ => Tenancy.files_push .., fun _ => rfl⟩
  · exact fun w e hk hp he => absurd he (by simp [Work.update])
  · intro e done w ho hk hp
    refine ⟨?_, fun hc => absurd hc (by simp), fun hok => absurd (ho.symm.trans hok) (by simp)⟩
    cases done with
    | true => exact hP w hp
    | false => exact hp

section Push

variable {rid sid : String} (hi : i ∈ svc.instances) (hrid : svc.roleId i.role = some rid)

include hi hrid

theorem push_both_rule {k : ℕ} :
    Triple (Kept svc env w₀)
      (fun w => Framed w₁ i w ∧ Since w₀.minted w.minted (i.role, sid))
      (push_both env i (captured rid) (captured sid) k)
      (fun ok w => (Framed w₁ i w ∧ Since w₀.minted w.minted (i.role, sid)) ∧
        (ok = true → RoleStaged svc w i ∧ SecretStaged w₀ w i) ∧
        (env.outcome (.pushRole i k) = .ok → env.outcome (.pushSecret i k) = .ok → ok = true)) E := by
  refine Triple.bind (file_push_rule hi ?_ ?_) fun first => ?_
  · exact fun w _ => .inl ⟨rfl, rid, hrid, Tenancy.files_push ..⟩
  · exact fun w hp => ⟨hp.1.push _ _, hp.2⟩
  cases first with
  | false =>
    refine Triple.pure ?_
    rintro w - ⟨hp, -, hok⟩
    exact ⟨hp, fun hc => absurd hc (by simp), fun h _ => hok h⟩
  | true =>
    refine (file_push_rule (P := fun w => (Framed w₁ i w ∧
      Since w₀.minted w.minted (i.role, sid)) ∧
        w.files i ROLE_ID = some ⟨captured rid, "0644"⟩) hi ?_ ?_).conseq ?_ ?_ fun _ _ _ h => h
    · exact fun w hp => .inr (.inl ⟨rfl, sid, hp.1.2, Tenancy.files_push ..⟩)
    · intro w hp
      refine ⟨⟨hp.1.1.push _ _, hp.1.2⟩, ?_⟩
      rw [Tenancy.files_push_of_ne (.inr (by decide)), hp.2]
    · exact fun w _ hp => ⟨hp.1, hp.2.1 rfl⟩
    · rintro ok w - ⟨⟨hp, hrole⟩, hsecret, hok⟩
      exact ⟨hp, fun h => ⟨⟨rid, hrid, hrole⟩, sid, hp.2, hsecret h⟩, fun _ h => hok h⟩

theorem push_one_rule {n k : ℕ} :
    Triple (Kept svc env w₀)
      (fun w => Framed w₁ i w ∧ Since w₀.minted w.minted (i.role, sid))
      (push_one env i (captured rid) (captured sid) n k)
      (fun ok w => (Framed w₁ i w ∧ Since w₀.minted w.minted (i.role, sid)) ∧
        (ok = true → RoleStaged svc w i ∧ SecretStaged w₀ w i) ∧ (Pushable env i n k → ok = true))
      E := by
  induction n generalizing k with
  | zero =>
    refine Triple.pure fun w _ hp => ⟨hp, fun hc => absurd hc (by simp), ?_⟩
    rintro ⟨j, hj, hj', -⟩
    omega
  | succ n ih =>
    refine Triple.bind (push_both_rule hi hrid) fun pushed => ?_
    cases pushed with
    | true => exact Triple.pure fun w _ hp => ⟨hp.1, hp.2.1, fun _ => rfl⟩
    | false =>
      -- the attempt has failed, so the one that succeeds is a later one
      refine (Triple.of_fact (φ := ¬ (env.outcome (.pushRole i k) = .ok ∧
        env.outcome (.pushSecret i k) = .ok)) fun hfail => (ih (k := k + 1)).conseq
          (fun _ _ h => h) ?_ fun _ _ _ h => h).weaken ?_
      · rintro ok w - ⟨hp, hok, hlater⟩
        refine ⟨hp, hok, ?_⟩
        rintro ⟨j, hj, hj', hrole, hsecret⟩
        have hne : j ≠ k := by
          rintro rfl
          exact hfail ⟨hrole, hsecret⟩
        exact hlater ⟨j, by omega, by omega, hrole, hsecret⟩
      · rintro w - ⟨hp, -, hok⟩
        exact ⟨fun h => absurd (hok h.1 h.2) (by simp), hp⟩

end Push

/-! ### The runner of an instance -/

/-- The runner is registered if both have said so, and nothing is changed. -/
theorem runner_registered_rule {P : Tenancy → Prop} :
    Triple (Kept svc env w₀) P (runner_registered svc env i (repoOf svc env i))
      (fun ok w => P w ∧ (ok = true ↔ Confirmed svc env w₀ i)) E := by
  have hlook : ∀ w, Kept svc env w₀ w → has_credentials w i = has_credentials w₀ i := by
    intro w hk
    rw [has_credentials, has_credentials, hk.credentials]
  refine Triple.bind (Q := fun there w => P w ∧
    there = env.answer (.credentials i) (has_credentials w₀ i)) (Triple.run_answer fun w hk hp =>
      ⟨hp, by rw [hlook w hk]⟩) fun there => ?_
  cases there with
  | none =>
    refine Triple.pure ?_
    rintro w - ⟨hp, hthere⟩
    refine ⟨hp, fun hc => absurd hc (by simp), fun hc => ?_⟩
    exact absurd (hthere.trans hc.1) (by simp)
  | some u =>
    refine Triple.bind (Q := fun listed w => (P w ∧
      some u = env.answer (.credentials i) (has_credentials w₀ i)) ∧
        listed = env.answer (.registered i) (is_registered svc (repoOf svc env i) i))
      (Triple.run_answer fun w _ hp => ⟨hp, rfl⟩) fun listed => Triple.pure ?_
    rintro w - ⟨⟨hp, hthere⟩, hlisted⟩
    refine ⟨hp, fun h => ⟨hthere.symm, ?_⟩, fun hc => by rw [hlisted, hc.2]; rfl⟩
    rw [← hlisted]
    obtain ⟨x, hx⟩ := Option.isSome_iff_exists.mp h
    rw [hx]

theorem push_token_rule (hi : i ∈ svc.instances) (hc : ¬ Confirmed svc env w₀ i) :
    Triple (Kept svc env w₀) (Tokened w₁ i) (push_token svc env i (repoOf svc env i))
      (fun _ w => Tokened w₁ i w ∧ (Tokenable svc env w₀ i → TokenStaged svc env w₀ w i)) E := by
  have hmint : ∀ w, Kept svc env w₀ w ∧ Tokened w₁ i w →
      (∃ token, svc.registration (repoOf svc env i) w.tokens.length = some token ∧
        svc.mintToken (repoOf svc env i) w =
          (.ok token, { w with tokens := w.tokens ++ [(repoOf svc env i, token)] }) ∧
        Kept svc env w₀ { w with tokens := w.tokens ++ [(repoOf svc env i, token)] } ∧
        Tokened w₁ i { w with tokens := w.tokens ++ [(repoOf svc env i, token)] }) ∨
      svc.registration (repoOf svc env i) w.tokens.length = none ∧
        svc.mintToken (repoOf svc env i) w = (.error 1, w) := by
    rintro w ⟨hk, hf⟩
    cases ht : svc.registration (repoOf svc env i) w.tokens.length with
    | none => exact .inr ⟨rfl, svc.mintToken_of_none ht⟩
    | some token => exact .inl ⟨token, rfl, svc.mintToken_of_some ht, hk.token ht, hf.token _⟩
  refine Triple.bind (Q := fun regtok w => Tokened w₁ i w ∧
    (∀ token, regtok = some token → Since w₀.tokens w.tokens (repoOf svc env i, token)) ∧
    (Tokenable svc env w₀ i → ∃ token, regtok = some token ∧ captured token ≠ ""))
    (Triple.run ?_ ?_ ?_ ?_) fun regtok => ?_
  · intro w hk hf
    obtain ⟨token, -, hact, hk', -⟩ | ⟨-, hact⟩ := hmint w ⟨hk, hf⟩
    · rwa [hact]
    · rwa [hact]
  · intro w a hk hf ha
    obtain ⟨token, ht, hact, -, hf'⟩ | ⟨-, hact⟩ := hmint w ⟨hk, hf⟩
    · rw [hact] at ha ⊢
      obtain rfl : token = a := Except.ok.inj ha
      refine ⟨hf', fun token' htoken => ?_, fun hwant => ⟨token, rfl, ?_⟩⟩
      · rw [← Option.some_inj.mp htoken]
        exact since_concat hk.tokens _
      · obtain ⟨token', htoken, hne⟩ := hwant.token w.tokens.length
        rwa [Option.some_inj.mp (ht.symm.trans htoken)]
    · rw [hact] at ha
      exact absurd ha (by simp)
  · intro w e hk hf he
    obtain ⟨token, -, hact, -, -⟩ | ⟨ht, hact⟩ := hmint w ⟨hk, hf⟩
    · rw [hact] at he
      exact absurd he (by simp)
    · rw [hact]
      refine ⟨hf, fun token hc => absurd hc (by simp), fun hwant => ?_⟩
      obtain ⟨token, htoken, -⟩ := hwant.token w.tokens.length
      exact absurd (ht.symm.trans htoken) (by simp)
  · intro e done w ho hk hf
    have hlost : Tokenable svc env w₀ i → ∃ token, (none : Option String) = some token ∧
        captured token ≠ "" := fun hwant => absurd (ho.symm.trans hwant.minted) (by simp)
    obtain ⟨token, -, hact, -, hf'⟩ | ⟨-, hact⟩ := hmint w ⟨hk, hf⟩
    · rw [hact]
      cases done with
      | true => exact ⟨hf', fun token hc => absurd hc (by simp), hlost⟩
      | false => exact ⟨hf, fun token hc => absurd hc (by simp), hlost⟩
    · rw [hact, ite_self]
      exact ⟨hf, fun token hc => absurd hc (by simp), hlost⟩
  cases regtok with
  | none =>
    refine Triple.pure ?_
    rintro w - ⟨hf, -, hwant⟩
    refine ⟨hf, fun h => ?_⟩
    obtain ⟨token, hc, -⟩ := hwant h
    exact absurd hc (by simp)
  | some token =>
    show Triple _ _ (if _ then _ else _) _ _
    split_ifs with hempty
    · refine Triple.pure ?_
      rintro w - ⟨hf, -, hwant⟩
      refine ⟨hf, fun h => ?_⟩
      obtain ⟨token', htoken, hne⟩ := hwant h
      rw [Option.some_inj.mp htoken] at hempty
      exact absurd hempty hne
    · refine (file_push_rule (P := fun w => Tokened w₁ i w ∧
        Since w₀.tokens w.tokens (repoOf svc env i, token)) hi ?_ ?_).conseq ?_ ?_
          fun _ _ _ h => h
      · exact fun w hp => .inr (.inr ⟨rfl, ⟨token, hp.2, hempty, Tenancy.files_push ..⟩, hc⟩)
      · exact fun w hp => ⟨hp.1.push _, hp.2⟩
      · exact fun w _ hp => ⟨hp.1, hp.2.1 token rfl⟩
      · rintro ok w - ⟨hp, hfile, hok⟩
        exact ⟨hp.1, fun hwant => ⟨token, hp.2, hempty, hfile (hok hwant.pushed)⟩⟩

theorem stage_runner_rule (hi : i ∈ svc.instances) :
    Triple (Kept svc env w₀) (Tokened w₁ i) (stage_runner svc env i)
      (fun _ w => Tokened w₁ i w ∧ (Tokenable svc env w₀ i → TokenStaged svc env w₀ w i)) E := by
  refine Triple.bind (Q := fun repo w => repo = repoOf svc env i ∧ Tokened w₁ i w) ?_
    fun repo => Triple.of_fact ?_
  · refine Triple.bind (Q := fun out w => out = env.answer (.repo i) (.ok (svc.krg_repo i)) ∧
      Tokened w₁ i w) (Triple.run_answer fun w _ hf => ⟨rfl, hf⟩) fun out => Triple.pure ?_
    rintro w - ⟨rfl, hf⟩
    exact ⟨rfl, hf⟩
  rintro rfl
  show Triple _ _ (if _ then _ else _) _ _
  split_ifs with hrepo
  · refine Triple.bind runner_registered_rule fun registered => ?_
    cases registered with
    | true =>
      refine Triple.pure ?_
      rintro w - ⟨hf, hc⟩
      exact ⟨hf, fun hwant => absurd (hc.mp rfl) hwant.unconfirmed⟩
    | false =>
      refine (Triple.of_fact (φ := ¬ Confirmed svc env w₀ i) fun hc =>
        push_token_rule hi hc).weaken ?_
      rintro w - ⟨hf, hc⟩
      exact ⟨fun h => absurd (hc.mpr h) (by simp), hf⟩
  · exact Triple.pure fun w _ hf => ⟨hf, fun hwant => absurd hwant.repo hrepo⟩

/-! ### One instance, and all of them -/

/-- An instance that was not served has nothing to show. -/
theorem result_of_unread {ok : Bool} (h : ¬ RoleRead svc env i) : Result svc env w₀ w i ok :=
  ⟨fun hread => absurd hread h, fun hread => absurd hread h⟩

theorem mint_secret_id_rule {rid : String} (hrid : svc.roleId i.role = some rid) :
    Triple (Kept svc env w₀) (Framed w₁ i) (mint_secret_id svc env i)
      (fun sid w => Framed w₁ i w ∧
        (∀ secret, sid = some secret → Since w₀.minted w.minted (i.role, secret)) ∧
        (sid = none → env.outcome (.secretId i) ≠ .ok)) E := by
  refine Triple.run ?_ ?_ ?_ ?_
  · intro w hk hf
    rw [svc.mintSecret_of_role hrid]
    exact hk.mint _
  · intro w a hk hf ha
    rw [svc.mintSecret_of_role hrid] at ha ⊢
    refine ⟨hf.mint _, fun secret hsecret => ?_, fun hc => absurd hc (by simp)⟩
    rw [← Option.some_inj.mp hsecret, ← Except.ok.inj ha]
    exact since_concat hk.minted _
  · intro w e hk hf he
    rw [svc.mintSecret_of_role hrid] at he
    exact absurd he (by simp)
  · intro e done w ho hk hf
    have hne : env.outcome (.secretId i) ≠ .ok := by
      rw [ho]
      simp
    rw [svc.mintSecret_of_role hrid]
    cases done with
    | true => exact ⟨hf.mint _, fun secret hc => absurd hc (by simp), fun _ => hne⟩
    | false => exact ⟨hf, fun secret hc => absurd hc (by simp), fun _ => hne⟩

/-- The push of both credentials, and then the runner. -/
theorem push_and_runner_rule (hi : i ∈ svc.instances) {rid sid : String}
    (hrid : svc.roleId i.role = some rid) :
    Triple (Kept svc env w₀) (fun w => Framed w₁ i w ∧ Since w₀.minted w.minted (i.role, sid))
      (do let pushed ← push_one env i (captured rid) (captured sid) 6 0
          let runner ← stage_runner svc env i
          return pushed && runner)
      (fun ok w => Framed w₁ i w ∧ Result svc env w₀ w i ok) E := by
  refine Triple.bind (push_one_rule hi hrid) fun pushed => Triple.of_each ?_
  rintro w₂ ⟨⟨hf, -⟩, hstaged, hpushed⟩
  have hrunner : Triple (Kept svc env w₀) (· = w₂) (stage_runner svc env i)
      (fun _ w => Tokened w₂ i w ∧ (Tokenable svc env w₀ i → TokenStaged svc env w₀ w i)) E := by
    refine (stage_runner_rule hi).weaken ?_
    rintro w - rfl
    exact Tokened.refl _ _
  refine Triple.bind hrunner fun runner => Triple.pure ?_
  · rintro w - ⟨ht, htoken⟩
    refine ⟨hf.trans_tokened ht, fun _ hok => ?_, fun _ _ hwant => htoken hwant⟩
    have hp : pushed = true := by
      obtain hok | hok := hok
      · exact (Bool.and_eq_true_iff.mp hok).1
      · exact hpushed hok.2
    obtain ⟨⟨rid, hrid, hrole⟩, secret, hsince, hsecret⟩ := hstaged hp
    refine ⟨⟨rid, hrid, ?_⟩, secret, ht.minted ▸ hsince, ?_⟩
    · rw [ht.files _ _ (.inr (by decide)), hrole]
    · rw [ht.files _ _ (.inr (by decide)), hsecret]

theorem stage_instance_rule (hi : i ∈ svc.instances) :
    Triple (Kept svc env w₀) (· = w₁) (stage_instance svc env i)
      (fun ok w => Framed w₁ i w ∧ Result svc env w₀ w i ok) E := by
  rw [stage_instance]
  by_cases hname : i.name = ""
  · rw [if_pos hname]
    refine Triple.pure ?_
    rintro w - rfl
    exact ⟨Framed.refl _ _, result_of_unread fun h => h.1 hname⟩
  rw [if_neg hname]
  refine Triple.bind (Q := fun rid w => rid = env.answer (.roleId i) (svc.readRole i.role) ∧
    Framed w₁ i w) (Triple.run_answer ?_) fun rid => Triple.of_fact fun hanswer => ?_
  · rintro w - rfl
    exact ⟨rfl, Framed.refl _ _⟩
  cases rid with
  | none =>
    refine Triple.pure fun w _ hf => ⟨hf, result_of_unread ?_⟩
    rintro ⟨-, ho, rid, hrid⟩
    exact absurd (hanswer.trans (ShellEnv.answer_eq_some.mpr ⟨ho, Services.readRole_eq_ok.mpr hrid⟩))
      (by simp)
  | some rid =>
    have hrid := Services.readRole_eq_ok.mp (ShellEnv.answer_eq_some.mp hanswer.symm).2
    refine Triple.bind (mint_secret_id_rule hrid) fun sid => ?_
    cases sid with
    | none =>
      refine Triple.pure ?_
      rintro w - ⟨hf, -, hne⟩
      refine ⟨hf, fun _ hok => ?_, fun _ ho => absurd ho (hne rfl)⟩
      exact absurd (hok.resolve_left (by simp)).1 (hne rfl)
    | some sid =>
      exact (push_and_runner_rule hi hrid).weaken fun w _ hp => ⟨hp.1, hp.2.1 sid rfl⟩

/-- From `w₁` on only the instances in `l` have changed. -/
structure AllFramed (w₁ : Tenancy) (l : List Instance) (w : Tenancy) : Prop where
  files : ∀ j, j ∉ l → w.files j = w₁.files j
  minted : w₁.minted <+: w.minted
  tokens : w₁.tokens <+: w.tokens

/-- The loop: what has become of each instance, and whether anything has failed. -/
theorem stage_instances_rule {l : List Instance} (hl : ∀ i ∈ l, i ∈ svc.instances) (hn : l.Nodup)
    {rc : ℕ} :
    Triple (Kept svc env w₀) (· = w₁) (stage_instances svc env l rc)
      (fun rc' w => AllFramed w₁ l w ∧ (rc' = 0 → rc = 0) ∧
        ∀ i ∈ l, ∃ ok, Result svc env w₀ w i ok ∧ (rc' = 0 → ok = true)) E := by
  induction l generalizing rc w₁ with
  | nil =>
    refine Triple.pure ?_
    rintro w - rfl
    exact ⟨⟨fun _ _ => rfl, List.prefix_rfl, List.prefix_rfl⟩, fun h => h,
      fun i hi => absurd hi List.not_mem_nil⟩
  | cons i l ih =>
    obtain ⟨hil, hn⟩ := List.nodup_cons.mp hn
    refine Triple.bind (stage_instance_rule (hl i List.mem_cons_self)) fun fine => Triple.of_each ?_
    rintro w₂ ⟨hf, hr⟩
    refine (ih (fun j hj => hl j (List.mem_cons_of_mem _ hj)) hn).conseq (fun _ _ h => h) ?_
      fun _ _ _ h => h
    rintro rc' w - ⟨ha, hrc, hall⟩
    refine ⟨⟨fun j hj => ?_, hf.minted.trans ha.minted, hf.tokens.trans ha.tokens⟩, fun h => ?_, ?_⟩
    · obtain ⟨hji, hjl⟩ := not_or.mp (fun h => hj (List.mem_cons.mpr h))
      exact (ha.files j hjl).trans (hf.files j hji)
    · cases fine with
      | true => exact hrc h
      | false => exact absurd (hrc h) (by simp)
    · intro j hj
      obtain rfl | hj := List.mem_cons.mp hj
      · refine ⟨fine, hr.of_eq (ha.files j hil) ha.minted ha.tokens, fun h => ?_⟩
        cases fine with
        | true => rfl
        | false => exact absurd (hrc h) (by simp)
      · exact hall j hj

/-! ### The run -/

/-- A command that changes nothing, and has status 0 if it does not fail. -/
theorem status_rule {site : Site} {P : Tenancy → Prop} :
    Triple (Kept svc env w₀) P (Script.status env.toShellEnv site (.query fun _ => .ok ()))
      (fun rc w => (rc ≠ 0 → env.outcome site ≠ .ok) ∧ P w) E := by
  refine Triple.status (fun w hk _ => hk) (fun w _ hp _ => ⟨fun h => absurd rfl h, hp⟩)
    (fun w e _ _ he => absurd he (by simp [Work.query])) ?_
  intro e done w ho _ hp
  refine ⟨fun _ hc => absurd (ho.symm.trans hc) (by simp), ?_⟩
  cases done with
  | true => exact hp
  | false => exact hp

theorem must_rule {site : Site} {P : Tenancy → Prop} :
    Triple (Kept svc env w₀) P (must env site) (fun _ => P)
      (fun rc _ => rc ≠ 0 ∧ env.outcome site ≠ .ok) := by
  refine Triple.bind status_rule fun rc => ?_
  show Triple _ _ (if _ then _ else _) _ _
  split_ifs with hrc
  · exact Triple.exit fun w _ h => ⟨hrc, h.1 hrc⟩
  · exact Triple.pure fun w _ h => h.2

theorem or_exit_rule {site : Site} {P : Tenancy → Prop} :
    Triple (Kept svc env w₀) P (or_exit env site) (fun _ => P)
      (fun rc _ => rc ≠ 0 ∧ env.outcome site ≠ .ok) := by
  refine Triple.bind status_rule fun rc => ?_
  show Triple _ _ (if _ then _ else _) _ _
  split_ifs with hrc
  · exact Triple.exit fun w _ h => ⟨one_ne_zero, h.1 hrc⟩
  · exact Triple.pure fun w _ h => h.2

/-- The run can reach the instances. -/
structure Connected (env : StagingEnv) : Prop where
  build : env.onPath = true ∨ env.outcome .build = .ok
  role : env.hasRole = true
  login : env.outcome .login = .ok
  issue : env.outcome .issue = .ok
  bundle : env.outcome .bundle = .ok
  remote : env.outcome .remote = .ok

theorem connect_rule {P : Tenancy → Prop} :
    Triple (Kept svc env w₀) P (connect env) (fun _ => P) (fun rc _ => rc ≠ 0 ∧ ¬ Connected env) := by
  refine Triple.bind (Q := fun _ => P) ?_ fun _ => ?_
  · rw [resolve_incus]
    split_ifs with hpath
    · exact Triple.pure fun _ _ h => h
    · exact must_rule.except fun rc w _ h => ⟨h.1, fun hc => h.2 (hc.build.resolve_left hpath)⟩
  show Triple _ _ (if _ then _ else _) _ _
  split_ifs with hrole
  · refine Triple.exit fun w _ _ => ⟨one_ne_zero, fun hc => ?_⟩
    rw [hc.role] at hrole
    exact absurd hrole (by simp)
  refine Triple.bind (or_exit_rule.except fun rc w _ h => ⟨h.1, fun hc => h.2 hc.login⟩) fun _ => ?_
  refine Triple.bind (or_exit_rule.except fun rc w _ h => ⟨h.1, fun hc => h.2 hc.issue⟩) fun _ => ?_
  refine Triple.bind (must_rule.except fun rc w _ h => ⟨h.1, fun hc => h.2 hc.bundle⟩) fun _ => ?_
  exact must_rule.except fun rc w _ h => ⟨h.1, fun hc => h.2 hc.remote⟩

/-- What a run ends with, by its exit status. -/
def Ends (svc : Services) (env : StagingEnv) (w₀ : Tenancy) (rc : ℕ) (w : Tenancy) : Prop :=
  (rc = 0 ∨ Connected env) → env.outcome .list = .ok →
    ∀ i ∈ svc.instances, ∃ ok, Result svc env w₀ w i ok ∧ (rc = 0 → ok = true)

theorem stage_tenants_rule :
    Triple (Kept svc env w₀) (· = w₀) (stage_tenants svc env) (fun _ => Ends svc env w₀ 0)
      (Ends svc env w₀) := by
  refine Triple.bind (connect_rule.except ?_) fun _ => ?_
  · rintro rc w - ⟨hrc, hc⟩ h
    exact absurd h (not_or.mpr ⟨hrc, hc⟩)
  refine Triple.bind (Q := fun rows w => rows = env.answer .list (.ok svc.instances) ∧ w = w₀)
    (Triple.run_answer fun w _ hw => ⟨rfl, hw⟩) fun rows => Triple.of_fact ?_
  rintro rfl
  have hrows : ∀ i ∈ (env.answer .list (.ok svc.instances)).getD [], i ∈ svc.instances := by
    intro i hi
    cases ho : env.answer .list (.ok svc.instances) with
    | none =>
      rw [ho] at hi
      exact absurd hi List.not_mem_nil
    | some l =>
      obtain rfl := Except.ok.inj (ShellEnv.answer_eq_some.mp ho).2
      rwa [ho] at hi
  have hnodup : ((env.answer .list (.ok svc.instances)).getD []).Nodup := by
    cases ho : env.answer .list (.ok svc.instances) with
    | none => exact List.nodup_nil
    | some l =>
      obtain rfl := Except.ok.inj (ShellEnv.answer_eq_some.mp ho).2
      exact svc.nodup
  refine Triple.bind (stage_instances_rule hrows hnodup) fun rc => Triple.exit ?_
  rintro w - ⟨-, -, hall⟩ - hlist i hi
  rw [ShellEnv.answer_of_ok hlist] at hall
  exact hall i hi

end Rules

/-! ### The properties of a run -/

section Run

variable (svc : Services) (env : StagingEnv) (w₀ : Tenancy)

theorem kept_of_run {w : Tenancy} (hw : w ∈ (outcomeOf (stage_tenants svc env) w₀).2.states) :
    Kept svc env w₀ w :=
  (stage_tenants_rule.of_start (Kept.refl w₀) rfl).1 w hw

theorem ends_of_run : Ends svc env w₀ (Script.exitStatus (stage_tenants svc env) w₀)
    (outcomeOf (stage_tenants svc env) w₀).2.now :=
  stage_tenants_rule.exitStatus (Kept.refl w₀) rfl

/-- Whatever fails, at every moment of a run a file of an instance is as it was, or the instance is
listed and the file is the role-id of its own role, a secret-id that this run has minted for that
role, or a registration token that this run has minted for its repository, while its runner was not
confirmed to be registered. -/
theorem tenants_given_own :
    ∀ w ∈ (outcomeOf (stage_tenants svc env) w₀).2.states, ∀ i path,
      w.files i path = w₀.files i path ∨ i ∈ svc.instances ∧ Given svc env w₀ w i path :=
  fun _ hw => (kept_of_run svc env w₀ hw).files

end Run

/-- A run that ends well has given every instance whose role OpenBao knows both of its credentials;
and a run that reaches the instances has done so for every one on which the commands of some attempt
succeed, and has given a token to every one that is in want of it, whatever fails on the others. -/
theorem tenants_served {svc : Services} {env : StagingEnv} {w₀ w : Tenancy} {rc : ℕ}
    (hlist : env.outcome .list = .ok) (hw : w = (outcomeOf (stage_tenants svc env) w₀).2.now)
    (hrc : rc = Script.exitStatus (stage_tenants svc env) w₀) :
    ∀ i ∈ svc.instances, RoleRead svc env i →
      (rc = 0 → RoleStaged svc w i ∧ SecretStaged w₀ w i) ∧
      (Connected env → env.outcome (.secretId i) = .ok →
        (Pushable env i 6 0 → RoleStaged svc w i ∧ SecretStaged w₀ w i) ∧
        (Tokenable svc env w₀ i → TokenStaged svc env w₀ w i)) := by
  have hend := ends_of_run svc env w₀
  rw [← hw, ← hrc] at hend
  intro i hi hread
  refine ⟨fun h => ?_, fun hc hsecret => ?_⟩
  · obtain ⟨ok, hr, hok⟩ := hend (.inl h) hlist i hi
    exact hr.staged hread (.inl (hok h))
  · obtain ⟨ok, hr, -⟩ := hend (.inr hc) hlist i hi
    exact ⟨fun hp => hr.staged hread (.inr ⟨hsecret, hp⟩), hr.token hread hsecret⟩

/-! ### A run -/

/-- Two tenants; OpenBao knows the role of the first only. -/
def twoTenants : Services where
  instances := [⟨"maps", "maps"⟩, ⟨"new", "new"⟩]
  nodup := by decide
  roleId role := if role = "tenant-maps" then some "r-maps" else none
  secretId role n := role ++ toString n
  krg_repo i := "lab/" ++ i.name ++ "\n"
  runners _ := []
  registration _ _ := some "t1"

/-- The first attempt to push the secret-id fails. -/
def slowBoot : StagingEnv where
  outcome
    | .pushSecret _ 0 => .raise 0 false
    | _ => .ok

def fresh : Tenancy where
  files _ _ := none

theorem tenants_given_own_maps :
    fresh.files ⟨"maps", "maps"⟩ SECRET_ID ≠
      (outcomeOf (stage_tenants twoTenants slowBoot) fresh).2.now.files ⟨"maps", "maps"⟩ SECRET_ID ∧
    ((outcomeOf (stage_tenants twoTenants slowBoot) fresh).2.now.files ⟨"maps", "maps"⟩ SECRET_ID =
      fresh.files ⟨"maps", "maps"⟩ SECRET_ID ∨ ⟨"maps", "maps"⟩ ∈ twoTenants.instances ∧
      Given twoTenants slowBoot fresh (outcomeOf (stage_tenants twoTenants slowBoot) fresh).2.now
        ⟨"maps", "maps"⟩ SECRET_ID) :=
  ⟨by decide +kernel,
    tenants_given_own twoTenants slowBoot fresh _ (Trace.now_mem _) ⟨"maps", "maps"⟩ SECRET_ID⟩

theorem tenants_served_maps :
    ((outcomeOf (stage_tenants twoTenants slowBoot) fresh).2.now.files ⟨"maps", "maps"⟩ SECRET_ID =
      some ⟨"tenant-maps0", "0600"⟩) ∧
    (Script.exitStatus (stage_tenants twoTenants slowBoot) fresh = 0 →
      SecretStaged fresh (outcomeOf (stage_tenants twoTenants slowBoot) fresh).2.now
        ⟨"maps", "maps"⟩) :=
  ⟨by decide +kernel, fun h => ((tenants_served rfl rfl rfl ⟨"maps", "maps"⟩ (by decide)
    ⟨by decide, rfl, "r-maps", by decide⟩).1 h).2⟩

end TenantStaging
