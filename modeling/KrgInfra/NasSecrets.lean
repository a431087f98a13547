/-
deploy-ansible: with which secrets the NAS play is started.

`_req` asks for a path, the play uses fields; and the commands that make the vars file are
not checked.  So the play is started with a secret missing whenever a path is there without
one of its fields, and without any secret whenever one of those commands fails.

* `complete` — a vars file with every required secret;
* `FailsClosed` — the play is started with such a file, or not at all;
* `nas_fails_closed` — exactly when a run fails closed;
* `missing_password` — a run that starts the play without the password of `e4e-admin`.
-/
import KrgInfra.NasRun

namespace DeployAnsible

/-! ### The required secrets -/

/-- A string that is not empty. -/
def present : Json → Bool
  | .str value => value ≠ ""
  | _ => false

/-- The members of an object; a value of another kind has none. -/
def membersOf : Json → Members
  | .obj members => members
  | _ => []

/-- The variables have every required secret. -/
def complete_vars (vars : Members) : Bool :=
  present (vars.get "garage_rpc_secret") && present (vars.get "garage_admin_token") &&
    present (vars.get "garage_metrics_token") &&
    present ((membersOf (vars.get "synology_user_passwords")).get "e4e-admin") &&
    present ((membersOf (vars.get "synology_user_passwords")).get "e4e-automation") &&
    present (vars.get "nas_admin_password") &&
    present (vars.get "snmp_v3_auth_password") && present (vars.get "snmp_v3_priv_password")

/-- The vars file has every required secret; one without a document has none. -/
def complete (content : Option Json) : Bool :=
  match content with
  | some document => complete_vars (membersOf document)
  | none => false

/-- The play is started with complete variables only, and where it is not started the run
fails. -/
structure FailsClosed (status : ℕ) (starts : List (Option Json)) : Prop where
  started : ∀ content ∈ starts, complete content = true
  refused : starts = [] → status ≠ 0

/-- A field of a path; `null`, where it is not there. -/
def Store.field (store : Store) (path name : String) : Json := ((store path).getD []).get name

/-- OpenBao has every required secret. -/
def required_stored (store : Store) : Bool :=
  present (store.field "secret/e4e-nas/garage" "rpc_secret") &&
    present (store.field "secret/e4e-nas/garage" "admin_token") &&
    present (store.field "secret/e4e-nas/garage" "metrics_token") &&
    present (store.field "secret/e4e-nas/users" "e4e-admin") &&
    present (store.field "secret/e4e-nas/users" "e4e-automation") &&
    present (store.field "secret/e4e-nas/snmp" "auth_password") &&
    present (store.field "secret/e4e-nas/snmp" "priv_password")

/-! ### What the vars file has -/

/-- The variables are complete exactly if the fields that they are made from are there. -/
theorem complete_vars_of {g u s : Fields} {hb : Json} {gk : Members} {oidc dsmsso adjoin : String}
    {store : Store} (hg : store "secret/e4e-nas/garage" = some g)
    (hu : store "secret/e4e-nas/users" = some u) (hs : store "secret/e4e-nas/snmp" = some s) :
    complete (some (vars_of g u s hb gk oidc dsmsso adjoin)) = required_stored store := by
  have hfield : ∀ path name data, store path = some data → store.field path name = data.get name := by
    intro path name data h
    rw [Store.field, h]
    rfl
  rw [required_stored, hfield _ _ _ hg, hfield _ _ _ hg, hfield _ _ _ hg, hfield _ _ _ hu,
    hfield _ _ _ hu, hfield _ _ _ hs, hfield _ _ _ hs]
  show complete_vars _ = _
  simp only [complete_vars, vars_of, membersOf, List.cons_append, Members.get_cons]
  simp only [String.reduceEq, if_true, if_false]
  cases present (Members.get u "e4e-admin") <;> cases present (Members.get u "e4e-automation") <;>
    simp

/-- **Failing closed.**  A run starts the play with complete variables, or fails, exactly if:
unless something that it checks keeps it from the play, no command fails that makes the vars
file, and OpenBao has every required secret. -/
theorem nas_fails_closed (env : NasEnv) (cfg : Config) (store : Store) :
    FailsClosed (Script.exitStatus (deploy_synology env cfg) (initial store))
        (final env cfg store).starts ↔
      (passes env cfg store = true →
        vars_written env cfg store = true ∧ required_stored store = true) := by
  obtain ⟨-, -, ⟨hpasses, content, hstarts, hcontent⟩ | ⟨hpasses, hstarts, hstatus⟩⟩ :=
    final_ends env cfg store
  · have hcomplete : complete content = true ↔
        vars_written env cfg store = true ∧ required_stored store = true := by
      unfold VarsContent at hcontent
      by_cases hwritten : vars_written env cfg store = true
      · rw [if_pos hwritten] at hcontent
        obtain ⟨g, u, s, hb, gk, oidc, dsmsso, adjoin, hg, hu, hs, rfl⟩ := hcontent
        rw [complete_vars_of hg hu hs]
        exact ⟨fun h => ⟨hwritten, h⟩, fun h => h.2⟩
      · rw [if_neg hwritten] at hcontent
        rw [hcontent]
        exact ⟨fun h => absurd h (by decide), fun h => absurd h.1 hwritten⟩
    rw [hstarts]
    constructor
    · exact fun h _ => hcomplete.mp (h.started content (List.mem_singleton_self content))
    · intro h
      refine ⟨fun c hc => ?_, fun hnil => absurd hnil (by simp)⟩
      rw [List.mem_singleton.mp hc]
      exact hcomplete.mpr (h hpasses)
  · rw [hstarts]
    exact ⟨fun _ h => absurd h hpasses, fun _ => ⟨fun _ hc => (nomatch hc), fun _ => hstatus⟩⟩

/-! ### A password that is missing -/

/-- OpenBao has every path, but not the password of `e4e-admin`. -/
def admin_missing : Store := fun path =>
  if path = "secret/e4e-nas/garage" then
    some [("rpc_secret", .str "r"), ("admin_token", .str "a"), ("metrics_token", .str "m")]
  else if path = "secret/e4e-nas/users" then some [("e4e-automation", .str "q")]
  else if path = "secret/e4e-nas/snmp" then
    some [("auth_password", .str "s"), ("priv_password", .str "t")]
  else none

/-- No command fails, the play is started once, and the run exits 0. -/
theorem missing_password :
    ¬ FailsClosed (Script.exitStatus (deploy_synology {} ⟨""⟩) (initial admin_missing))
        (final {} ⟨""⟩ admin_missing).starts ∧
      (final {} ⟨""⟩ admin_missing).starts.map complete = [false] ∧
      Script.exitStatus (deploy_synology {} ⟨""⟩) (initial admin_missing) = 0 := by
  have hstarts : (final {} ⟨""⟩ admin_missing).starts.map complete = [false] := by decide +kernel
  refine ⟨fun h => ?_, hstarts, by decide +kernel⟩
  obtain ⟨content, hmem, hfalse⟩ : ∃ c ∈ (final {} ⟨""⟩ admin_missing).starts, complete c = false := by
    rw [← List.mem_map, hstarts]
    exact List.mem_singleton_self false
  exact absurd ((h.started content hmem).symm.trans hfalse) (by decide)

end DeployAnsible
