/-
deploy-nixos: what a run leaves behind, whatever fails.

* `switch_host_rule`, `rebuild_all_rule`, `deploy_nixos_rule` — the switch, the loop, and the run;
* `deploy_in_order` — the order of the hosts, and what the exit status says;
* `switch_prepared` — no host is switched before it is staged;
* `deploy_confined` — what a run has not touched of a host before its switch.
-/
import KrgInfra.NixosStaging

namespace DeployNixos

section Rules

variable {flake : Flake} {bao : OpenBao} {env : NixosEnv} {cfg : Settings} {w₀ : Fleet}
  {P : Fleet → Prop} {I : Fleet → Prop} {host : String} {done : List String}

/-! ### The switch -/

/-- What is good or excused has come to run what the flake has for the host. -/
theorem succeeded_rule {rc : ℕ} {E : ℕ → Fleet → Prop} :
    Triple I (fun w => P w ∧ (rc = 0 → Runs flake cfg w host)) (succeeded flake env cfg host rc)
      (fun ok w => P w ∧ (ok = true → Runs flake cfg w host)) E := by
  show Triple _ _ (if _ then _ else if _ then _ else _) _ _
  split_ifs with hrc
  · exact Triple.pure fun w _ h => ⟨h.1, fun _ => h.2 hrc⟩
  · refine Triple.bind (Q := fun built w =>
      built = env.answer (.toplevel host) (.ok (flake.toplevel host)) ∧ P w)
      (Triple.run_answer fun w _ h => ⟨rfl, h.1⟩) fun built => Triple.of_fact fun hbuilt => ?_
    refine Triple.bind (Q := fun running w => running = env.answer (.current host)
        (.ok ((w.machine (cfg.target_for host)).running ++ "\n")) ∧ P w)
      (Triple.run_answer fun w _ h => ⟨rfl, h⟩) fun running => Triple.pure ?_
    rintro w - ⟨hrunning, hP⟩
    refine ⟨hP, fun hok => ?_⟩
    have hstatus := of_decide_eq_true hok
    have hverdict : switch_exit4_recovered built running (env.polls host) =
        ⟨0, (switch_exit4_recovered built running (env.polls host)).polls⟩ := by
      rw [← hstatus]
    -- both paths were read, and they are one
    obtain ⟨⟨path, hwant, hgot⟩, -⟩ := (excused_iff built running _ _).mp hverdict
    obtain ⟨top, htop, rfl⟩ := Option.map_eq_some_iff.mp hwant
    obtain ⟨line, hline, hpath⟩ := Option.map_eq_some_iff.mp hgot
    obtain ⟨-, htop⟩ := ShellEnv.answer_eq_some.mp (hbuilt.symm.trans htop)
    obtain ⟨-, hline⟩ := ShellEnv.answer_eq_some.mp (hrunning.symm.trans hline)
    obtain rfl := Except.ok.inj htop
    obtain rfl := Except.ok.inj hline
    rwa [captured_newline] at hpath
  · exact Triple.pure fun w _ h => ⟨h.1, nofun⟩

/-- Where a run that ends early has stopped: at a host, with those before it done. -/
def Stopped (flake : Flake) (cfg : Settings) (hosts : List String) (w : Fleet) : Prop :=
  ∃ done host switched, done ++ [host] <+: hosts ∧
    Stage flake cfg (done ++ [host]) switched done w

/-- A host that is begun, and has perhaps been switched. -/
def Here (flake : Flake) (cfg : Settings) (host : String) (done : List String) (w : Fleet) : Prop :=
  ∃ switched, Stage flake cfg (done ++ [host]) switched done w

/-- The switch: the host has come to run what the flake has for it, if the status is 0. -/
theorem switch_rule {E : ℕ → Fleet → Prop} :
    Triple (Kept flake bao env cfg w₀)
      (fun w => At flake cfg host done w ∧
        Prepared flake bao env cfg host w.minted (w.machine (cfg.target_for host)))
      (switch flake env cfg host)
      (fun rc w => Stage flake cfg (done ++ [host]) (done ++ [host]) done w ∧
        (rc = 0 → Runs flake cfg w host)) E := by
  refine Triple.bind (Q := fun _ w => Stage flake cfg (done ++ [host]) (done ++ [host]) done w ∧
    (host ∈ ORDER ∧ (∀ g ∈ done, g ∈ ORDER) ∧ host ∉ done) ∧
    ∃ s ∈ w.switches, cfg.target_for s.host = cfg.target_for host) (Triple.note ?_) fun _ => ?_
  · rintro w hI ⟨hat, hready⟩
    have hbegun : host ∈ w.begun := by simp [hat.begun]
    refine ⟨hI.switching hbegun hready, ⟨hat.begun, ?_, hat.finished, hat.runs⟩,
      ⟨hat.known, hat.done_known, hat.new⟩, _, List.mem_append_right _ (List.mem_singleton_self _), rfl⟩
    rw [List.map_append, hat.switched]
    rfl
  · refine Triple.status (fun w hI h => hI.activate _ h.2.2) ?_ (fun w _ _ _ he => nomatch he) ?_
    · rintro w - ⟨hstage, ⟨hknown, hdone, hnew⟩, -⟩ -
      refine ⟨hstage.put hknown hdone hnew _, fun _ => ?_⟩
      show captured ((w.put _ _).machine _).running = _
      rw [machine_put]
    · rintro e made w - - ⟨hstage, ⟨hknown, hdone, hnew⟩, -⟩
      refine ⟨?_, fun h => absurd h (Nat.succ_ne_zero e)⟩
      cases made with
      | true => exact hstage.put hknown hdone hnew _
      | false => exact hstage

/-- A unit of a host whose switch was begun changes files of that host. -/
theorem start_unit_rule {begun switched finished : List String} {E : ℕ → Fleet → Prop} {i : Site}
    (hhost : host ∈ switched) :
    Triple (Kept flake bao env cfg w₀) (Stage flake cfg begun switched finished)
      (start_unit env cfg i host) (fun _ => Stage flake cfg begun switched finished) E := by
  refine (try_on_rule (A := Stage flake cfg begun switched finished)
    (Q := Stage flake cfg begun switched finished) (fun _ h => h) ?_).conseq (fun _ _ h => h)
    (fun _ _ _ h => h.1) fun _ _ _ h => h
  intro w m hI h hm
  obtain rfl := Except.ok.inj hm
  have hstage := h.leave (cfg.target_for host) (env.leave i (w.machine (cfg.target_for host)).files)
  refine ⟨hI.activate _ ?_, hstage, hstage⟩
  rw [← h.switched] at hhost
  obtain ⟨s, hs, rfl⟩ := List.mem_map.mp hhost
  exact ⟨s, hs, rfl⟩

section Units

variable {begun switched finished : List String} {E : ℕ → Fleet → Prop} (hhost : host ∈ switched)

include hhost

theorem rerender_rule : Triple (Kept flake bao env cfg w₀) (Stage flake cfg begun switched finished)
    (rerender flake env cfg host) (fun _ => Stage flake cfg begun switched finished) E := by
  refine Triple.bind eval_rule fun agent => Triple.of_fact fun _ => ?_
  show Triple _ _ (if _ then _ else _) _ _
  split_ifs
  · exact Triple.bind (start_unit_rule hhost) fun _ => Triple.pure fun _ _ h => h
  · exact Triple.pure fun _ _ h => h

theorem reclaim_rule : Triple (Kept flake bao env cfg w₀) (Stage flake cfg begun switched finished)
    (reclaim flake env cfg host) (fun _ => Stage flake cfg begun switched finished) E := by
  show Triple _ _ (if _ then _ else _) _ _
  split_ifs
  · exact Triple.pure fun _ _ h => h
  · refine Triple.bind (start_unit_rule hhost) fun _ => Triple.bind eval_rule fun docker =>
      Triple.of_fact fun _ => ?_
    show Triple _ _ (if _ then _ else _) _ _
    split_ifs
    · exact Triple.bind (start_unit_rule hhost) fun _ => Triple.pure fun _ _ h => h
    · exact Triple.pure fun _ _ h => h

end Units

/-- The switch of a host that is prepared: it is done, or the run stops at it. -/
theorem switch_host_rule :
    Triple (Kept flake bao env cfg w₀)
      (fun w => At flake cfg host done w ∧
        Prepared flake bao env cfg host w.minted (w.machine (cfg.target_for host)))
      (switch_host flake env cfg host)
      (fun _ => Stage flake cfg (done ++ [host]) (done ++ [host]) (done ++ [host]))
      (fun e w => e ≠ 0 ∧ Here flake cfg host done w) := by
  refine Triple.bind (must_rule.except fun e w _ h => ⟨h.1, done, h.2.1.toStage⟩) fun _ => ?_
  refine Triple.bind switch_rule fun rc => Triple.bind succeeded_rule fun ok => ?_
  refine Triple.bind (must_rule.except fun e w _ h => ⟨h.1, _, h.2.1⟩) fun _ => ?_
  cases ok with
  | false => exact Triple.exit fun w _ h => ⟨by decide, _, h.1⟩
  | true =>
    have hhere : host ∈ done ++ [host] := List.mem_append_right _ (List.mem_singleton_self host)
    refine Triple.bind (Q := fun _ =>
      Stage flake cfg (done ++ [host]) (done ++ [host]) (done ++ [host])) (Triple.note ?_) fun _ =>
      Triple.bind (rerender_rule hhere) fun _ => reclaim_rule hhere
    rintro w hI ⟨hstage, hruns⟩
    refine ⟨⟨hI.files, hI.running, hI.secret, hI.switched, hI.prepared⟩, hstage.begun, hstage.switched, ?_, ?_⟩
    · rw [hstage.finished]
    · intro g hg
      obtain hg | hg := List.mem_append.mp hg
      · exact hstage.runs g hg
      · obtain rfl := List.mem_singleton.mp hg
        exact hruns rfl

/-- One host of the loop. -/
theorem rebuild_rule {archive token : String} (hinst : cfg.installer = some archive)
    (hsep : flake.Separate host) (hknown : host ∈ ORDER) (hdone : ∀ g ∈ done, g ∈ ORDER)
    (hnew : host ∉ done) :
    Triple (Kept flake bao env cfg w₀) (Stage flake cfg done done done)
      (rebuild flake bao env cfg archive token host)
      (fun _ => Stage flake cfg (done ++ [host]) (done ++ [host]) (done ++ [host]))
      (fun e w => e ≠ 0 ∧ Here flake cfg host done w) := by
  refine Triple.bind (Q := fun _ => At flake cfg host done) (Triple.note ?_) fun _ => ?_
  · intro w hI h
    exact ⟨hI.begin host, ⟨by rw [h.begun], h.switched, h.finished, h.runs⟩, hknown, hdone, hnew⟩
  refine Triple.bind (stage_oec_rule hsep) fun staged => ?_
  cases staged with
  | false => exact Triple.exit fun w _ h => ⟨by decide, _, h.1.toStage⟩
  | true =>
    refine Triple.bind ((stage_vault_secret_zero_rule hinst hsep).weaken
      fun w _ h => h.2 rfl) fun ready => ?_
    cases ready with
    | false => exact Triple.exit fun w _ h => ⟨by decide, _, h.1.toStage⟩
    | true => exact switch_host_rule.weaken fun w _ h => h.2 rfl

/-- The loop over the hosts. -/
theorem rebuild_all_rule {archive token : String} {want : List String}
    (hinst : cfg.installer = some archive) (hsep : ∀ h ∈ ORDER, flake.Separate h)
    (hosts : List String) :
    ∀ done, (done ++ hosts).Nodup → (∀ h ∈ done ++ hosts, h ∈ ORDER) →
      Triple (Kept flake bao env cfg w₀) (Stage flake cfg done done done)
        (rebuild_all flake bao env cfg archive token want hosts)
        (fun _ => Stage flake cfg (done ++ hosts.filter (· ∈ want)) (done ++ hosts.filter (· ∈ want))
          (done ++ hosts.filter (· ∈ want)))
        (fun e w => e ≠ 0 ∧ Stopped flake cfg (done ++ hosts.filter (· ∈ want)) w) := by
  induction hosts with
  | nil =>
    intro done _ _
    exact Triple.pure fun w _ h => by simpa using h
  | cons host hosts ih =>
    intro done hnodup hknown
    show Triple _ _ (if _ then _ else _) _ _
    split_ifs with hwant
    · have hsplit : done ++ (host :: hosts).filter (· ∈ want) =
          done ++ [host] ++ hosts.filter (· ∈ want) := by
        simp [hwant]
      have hnew : host ∉ done := fun hmem =>
        (List.nodup_append.mp hnodup).2.2 host hmem host List.mem_cons_self rfl
      rw [hsplit]
      refine Triple.bind ((rebuild_rule hinst (hsep host (hknown host (by simp)))
        (hknown host (by simp)) (fun g hg => hknown g (List.mem_append_left _ hg)) hnew).except ?_)
        fun _ => ih (done ++ [host]) (by simpa using hnodup) (by simpa using hknown)
      rintro e w - ⟨he, switched, hstage⟩
      exact ⟨he, done, host, switched, List.prefix_append _ _, hstage⟩
    · have hsame : (host :: hosts).filter (· ∈ want) = hosts.filter (· ∈ want) := by
        simp [hwant]
      rw [hsame]
      refine ih done ?_ fun h hh => hknown h ?_
      · exact hnodup.sublist ((List.sublist_cons_self host hosts).append_left done)
      · obtain hh | hh := List.mem_append.mp hh
        · exact List.mem_append_left _ hh
        · exact List.mem_append_right _ (List.mem_cons_of_mem _ hh)

end Rules

/-! ### A whole run -/

section Runs

variable {flake : Flake} {bao : OpenBao} {env : NixosEnv} {cfg : Settings}

/-- How a run ends. -/
def Ended (flake : Flake) (cfg : Settings) (status : ℕ) (w : Fleet) : Prop :=
  (status = 0 ∧ Stage flake cfg cfg.selected cfg.selected cfg.selected w) ∨
    (status ≠ 0 ∧ (Stage flake cfg [] [] [] w ∨ Stopped flake cfg cfg.selected w))

theorem deploy_nixos_rule (bao : OpenBao) (env : NixosEnv) (cfg : Settings) (w₀ : Fleet)
    (hsep : ∀ h ∈ ORDER, flake.Separate h) :
    Triple (Kept flake bao env cfg w₀) (Stage flake cfg [] [] []) (deploy_nixos flake bao env cfg)
      (fun _ w => Ended flake cfg 0 w) (fun e w => Ended flake cfg e w) := by
  have hrefused : ∀ {n : ℕ}, n ≠ 0 → Triple (Kept flake bao env cfg w₀) (Stage flake cfg [] [] [])
      (Script.exit n : Deploy Unit) (fun _ w => Ended flake cfg 0 w)
      (fun e w => Ended flake cfg e w) :=
    fun hn => Triple.exit fun w _ h => .inr ⟨hn, .inl h⟩
  unfold deploy_nixos
  cases hwant : cfg.want with
  | error host => exact hrefused (by decide)
  | ok want =>
    have hselected : cfg.selected = ORDER.filter (· ∈ want) := by
      rw [Settings.selected, hwant]
    cases hinst : cfg.installer with
    | none => exact hrefused (by decide)
    | some archive =>
      refine Triple.bind try_command_rule fun readable => ?_
      cases readable with
      | false => exact hrefused (by decide)
      | true =>
        refine Triple.bind (Q := fun _ => Stage flake cfg [] [] []) ?_ fun token => ?_
        · show Triple _ _ (if _ then _ else _) _ _
          split_ifs
          · exact Triple.bind reads fun _ => Triple.pure fun _ _ h => h
          · exact Triple.pure fun _ _ h => h
        · refine (rebuild_all_rule hinst hsep ORDER [] (by decide) (by simp)).conseq
            (fun _ _ h => h) ?_ ?_
          · rintro _ w - h
            rw [List.nil_append, ← hselected] at h
            exact .inl ⟨rfl, h⟩
          · rintro e w - ⟨he, h⟩
            rw [List.nil_append, ← hselected] at h
            exact .inr ⟨he, .inr h⟩

/-- The world that a run finds. -/
def found (machine : String → Machine) : Fleet := { machine }

theorem stage_found (machine : String → Machine) : Stage flake cfg [] [] [] (found machine) :=
  ⟨rfl, rfl, rfl, nofun⟩

/-- **Order.**  A run comes to the selected hosts in their order and stops at the first that fails;
those before it run what the flake has for them, those after it are as they were, and the exit
status is 0 exactly if all are done. -/
theorem deploy_in_order (flake : Flake) (bao : OpenBao) (env : NixosEnv) (cfg : Settings)
    (hsep : ∀ h ∈ ORDER, flake.Separate h) (machine : String → Machine) :
    let w := (outcomeOf (deploy_nixos flake bao env cfg) (found machine)).2.now
    (w.begun <+: cfg.selected ∧ (w.begun = w.finished ∨ ∃ h, w.begun = w.finished ++ [h])) ∧
    (∀ h ∈ w.finished, Runs flake cfg w h) ∧
    (∀ t, (∀ h ∈ w.begun, cfg.target_for h ≠ t) → w.machine t = machine t) ∧
    (cfg.selected ≠ [] → (Script.exitStatus (deploy_nixos flake bao env cfg) (found machine) = 0 ↔
      w.finished = cfg.selected)) := by
  intro w
  have hrule := deploy_nixos_rule bao env cfg (found machine) hsep
  have hkept : Kept flake bao env cfg (found machine) w :=
    (hrule.of_start (.refl rfl) (stage_found machine)).1 w (Trace.now_mem _)
  have hends : Ended flake cfg (Script.exitStatus (deploy_nixos flake bao env cfg) (found machine)) w :=
    Triple.exitStatus (R := Ended flake cfg) hrule (.refl rfl) (stage_found machine)
  have hframe : ∀ t, (∀ h ∈ w.begun, cfg.target_for h ≠ t) → w.machine t = machine t := by
    intro t ht
    have hun : Unswitched cfg w t := fun s hs => ht _ (hkept.switched s hs)
    have hfiles : (w.machine t).files = (machine t).files :=
      funext fun path => hkept.files t path hun fun h hh he => absurd he (ht h hh)
    have hrunning : (w.machine t).running = (machine t).running := hkept.running t hun
    cases hm : w.machine t with
    | mk files running =>
      rw [hm] at hfiles hrunning
      rw [show files = _ from hfiles, show running = _ from hrunning]
  obtain ⟨h0, hstage⟩ | ⟨h0, hstage | ⟨done, host, switched, hprefix, hstage⟩⟩ := hends
  · refine ⟨⟨hstage.begun ▸ List.prefix_rfl, .inl (hstage.begun.trans hstage.finished.symm)⟩, ?_,
      hframe, fun _ => iff_of_true h0 hstage.finished⟩
    rw [hstage.finished]
    exact hstage.runs
  · refine ⟨⟨hstage.begun ▸ List.nil_prefix, .inl (hstage.begun.trans hstage.finished.symm)⟩, ?_,
      hframe, fun hne => iff_of_false h0 fun he => hne (he.symm.trans hstage.finished)⟩
    rw [hstage.finished]
    exact hstage.runs
  · refine ⟨⟨hstage.begun ▸ hprefix, .inr ⟨host, by rw [hstage.begun, hstage.finished]⟩⟩, ?_,
      hframe, fun _ => iff_of_false h0 fun he => ?_⟩
    · rw [hstage.finished]
      exact hstage.runs
    · -- the host that it stopped at is one of those to be done
      have hlen := hprefix.length_le
      rw [← he, hstage.finished, List.length_append, List.length_singleton] at hlen
      omega

/-- **Staging.**  No host is switched before it has the archive; and if it has a vault-agent, before
it has its role-id, and a secret-id that the run has minted for its role. -/
theorem switch_prepared (flake : Flake) (bao : OpenBao) (env : NixosEnv) (cfg : Settings)
    (hsep : ∀ h ∈ ORDER, flake.Separate h) (machine : String → Machine) :
    ∀ w ∈ (outcomeOf (deploy_nixos flake bao env cfg) (found machine)).2.states,
      ∀ s ∈ w.switches, Prepared flake bao env cfg s.host w.minted s.before := by
  intro w hw
  have hrule := deploy_nixos_rule bao env cfg (found machine) hsep
  exact ((hrule.of_start (.refl rfl) (stage_found machine)).1 w hw).prepared

/-- **Confinement.**  Whatever fails, and at every moment: on a host whose switch it has not begun a
run has written four files at most, if it has come to the host, and none if it has not; the host runs
what it ran; and nobody but root can read a secret-id that the run has put there. -/
theorem deploy_confined (flake : Flake) (bao : OpenBao) (env : NixosEnv) (cfg : Settings)
    (hsep : ∀ h ∈ ORDER, flake.Separate h) (machine : String → Machine) :
    ∀ w ∈ (outcomeOf (deploy_nixos flake bao env cfg) (found machine)).2.states,
      (∀ s ∈ w.switches, s.host ∈ w.begun) ∧
      ∀ t, (∀ s ∈ w.switches, cfg.target_for s.host ≠ t) →
        (∀ path, (∀ h ∈ w.begun, cfg.target_for h = t → path ∉ flake.written h) →
          (w.machine t).files path = (machine t).files path) ∧
        (w.machine t).running = (machine t).running ∧
        ∀ h ∈ ORDER, cfg.target_for h = t → ∀ file,
          (w.machine t).files (flake.value h .secretIdFile) = some file →
          file.mode = "0600" ∨ (machine t).files (flake.value h .secretIdFile) = some file := by
  intro w hw
  have hrule := deploy_nixos_rule bao env cfg (found machine) hsep
  have hkept := (hrule.of_start (.refl rfl) (stage_found machine)).1 w hw
  refine ⟨hkept.switched, fun t hun => ⟨fun path => hkept.files t path hun, hkept.running t hun, ?_⟩⟩
  rintro h hh rfl
  exact hkept.secret h hh hun

end Runs

/-! ### A run that stops -/

/-- The compute boxes have a vault-agent. -/
def labFlake : Flake where
  agent h := if h ∈ ["krg-prod", "waiter", "kastner-ml"] then "true\n" else "false\n"
  attr h a :=
    match a with
    | .roleName => h
    | .roleIdFile => "/var/lib/krg/openbao-agent/role-id"
    | .secretIdFile => "/var/lib/krg/openbao-agent/secret-id"
  docker _ := "false\n"
  toplevel h := "/nix/store/" ++ h

def labBao : OpenBao where
  token := "t\n"
  roleId role := some (role ++ "-id\n")
  secretId role n := role ++ String.ofList (List.replicate n 's') ++ "\n"

def bareMachine : String → Machine := fun _ => ⟨fun _ => none, "/nix/store/old"⟩

/-- `nixos-rebuild` does not reach waiter; the vault-agent of krg-prod renders a secret. -/
def waiterFails : NixosEnv where
  outcome i := if i = .switch "waiter" then .raise 0 false else .ok
  leave i files path :=
    if i = .restart "krg-prod" ∧ path = "/run/openbao-agent/guacamole.env" then
      some ⟨"POSTGRES_PASSWORD=p", "0400"⟩
    else files path

def computeHosts : Settings := { hosts := "waiter krg-prod kastner-ml", installer := some "tar" }

theorem labFlake_separate : ∀ h ∈ ORDER, labFlake.Separate h := by
  intro h _
  have hrole : captured "/var/lib/krg/openbao-agent/role-id" ≠ OEC_DEST := by decide
  have hdest : captured "/var/lib/krg/openbao-agent/secret-id" ≠ OEC_DEST := by decide
  have htmp : captured "/var/lib/krg/openbao-agent/secret-id" ≠ OEC_TMP := by decide
  have hpair : captured "/var/lib/krg/openbao-agent/secret-id" ≠
      captured "/var/lib/krg/openbao-agent/role-id" := by decide
  exact ⟨hrole, hdest, htmp, hpair⟩

theorem deploy_in_order_waiter :
    let w := (outcomeOf (deploy_nixos labFlake labBao waiterFails computeHosts)
      (found bareMachine)).2.now
    w.finished = ["krg-prod"] ∧ ∀ h ∈ w.finished, Runs labFlake computeHosts w h := by
  have hfinished : (outcomeOf (deploy_nixos labFlake labBao waiterFails computeHosts)
      (found bareMachine)).2.now.finished = ["krg-prod"] := by
    decide +kernel
  exact ⟨hfinished, (deploy_in_order labFlake labBao waiterFails computeHosts labFlake_separate
    bareMachine).2.1⟩

theorem switch_prepared_waiter :
    let w := (outcomeOf (deploy_nixos labFlake labBao waiterFails computeHosts)
      (found bareMachine)).2.now
    w.switches.map Switch.host = ["krg-prod", "waiter"] ∧
      ∀ s ∈ w.switches, Prepared labFlake labBao waiterFails computeHosts s.host w.minted s.before := by
  have hswitches : (outcomeOf (deploy_nixos labFlake labBao waiterFails computeHosts)
      (found bareMachine)).2.now.switches.map Switch.host = ["krg-prod", "waiter"] := by
    decide +kernel
  exact ⟨hswitches, switch_prepared labFlake labBao waiterFails computeHosts labFlake_separate
    bareMachine _ (Trace.now_mem _)⟩

theorem deploy_confined_waiter :
    let w := (outcomeOf (deploy_nixos labFlake labBao waiterFails computeHosts)
      (found bareMachine)).2.now
    w.begun = ["krg-prod", "waiter"] ∧
      ∀ path, (w.machine (computeHosts.target_for "kastner-ml")).files path = none := by
  have hbegun : (outcomeOf (deploy_nixos labFlake labBao waiterFails computeHosts)
      (found bareMachine)).2.now.begun = ["krg-prod", "waiter"] := by
    decide +kernel
  have hother : ∀ h ∈ ["krg-prod", "waiter"],
      computeHosts.target_for h ≠ computeHosts.target_for "kastner-ml" := by decide +kernel
  obtain ⟨hswitched, hconfined⟩ := deploy_confined labFlake labBao waiterFails computeHosts
    labFlake_separate bareMachine _ (Trace.now_mem _)
  rw [hbegun] at hswitched hconfined
  refine ⟨hbegun, fun path => (hconfined _ fun s hs => hother _ (hswitched s hs)).1 path ?_⟩
  exact fun h hh he => absurd he (hother h hh)

end DeployNixos
