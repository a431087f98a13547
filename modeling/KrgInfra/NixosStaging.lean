/-
deploy-nixos: what every moment of a run has kept, and the two stagings.

* `Prepared` — what a host has before it is switched;
* `Kept` — what every world of a run has kept;
* `Stage`, `At` — how far a run is;
* `stage_oec_rule`, `stage_vault_secret_zero_rule` — the stagings.
-/
import KrgInfra.NixosDeploy

namespace DeployNixos

/-! ### Targets -/

/-- What follows the last `@`. -/
def address (target : List Char) : List Char := (target.reverse.takeWhile (· ≠ '@')).reverse

theorem address_eq (user : List Char) {addr : List Char} (h : '@' ∉ addr) :
    address (user ++ '@' :: addr) = addr := by
  have hall : ∀ c ∈ addr.reverse, decide (c ≠ '@') = true := by
    intro c hc
    rw [List.mem_reverse] at hc
    exact decide_eq_true fun he => h (he ▸ hc)
  rw [address, List.reverse_append, List.reverse_cons, List.append_assoc,
    List.takeWhile_append_of_pos hall]
  simp

/-- No two hosts have one target, whoever the admin is. -/
theorem target_for_inj {cfg : Settings} {host host' : String} (h : host ∈ ORDER)
    (h' : host' ∈ ORDER) (heq : cfg.target_for host = cfg.target_for host') : host = host' := by
  have haddr : ∀ g ∈ ORDER, '@' ∉ ((ADDR.lookup g).getD "").toList := by decide +kernel
  have hdistinct : ∀ g ∈ ORDER, ∀ g' ∈ ORDER,
      ((ADDR.lookup g).getD "").toList = ((ADDR.lookup g').getD "").toList → g = g' := by
    decide +kernel
  have htarget : ∀ g, (cfg.target_for g).toList =
      ((USER_OVERRIDE.lookup g).getD cfg.admin).toList ++ '@' :: ((ADDR.lookup g).getD "").toList := by
    intro g
    simp [Settings.target_for]
  refine hdistinct host h host' h' ?_
  rw [← address_eq _ (haddr host h), ← htarget, heq, htarget, address_eq _ (haddr host' h')]

/-! ### What a run keeps -/

section Spec

variable (flake : Flake) (bao : OpenBao) (env : NixosEnv) (cfg : Settings)

/-- The files that a run writes on a host. -/
def Flake.written (host : String) : List String :=
  [OEC_TMP, OEC_DEST, flake.value host .roleIdFile, flake.value host .secretIdFile]

/-- The files of the vault-agent are not those of the archive, and not one. -/
structure Flake.Separate (host : String) : Prop where
  role_ne_dest : flake.value host .roleIdFile ≠ OEC_DEST
  secret_ne_dest : flake.value host .secretIdFile ≠ OEC_DEST
  secret_ne_tmp : flake.value host .secretIdFile ≠ OEC_TMP
  secret_ne_role : flake.value host .secretIdFile ≠ flake.value host .roleIdFile

/-- The archive is in its place. -/
def OecStaged (archive : String) (m : Machine) : Prop := m.files OEC_DEST = some ⟨archive, "0600"⟩

/-- The vault-agent has its role-id, and a secret-id that this run has minted for the role. -/
def ZeroStaged (host : String) (minted : List (String × String)) (m : Machine) : Prop :=
  ∃ rid, bao.roleId (flake.value host .roleName) = some rid ∧
    m.files (flake.value host .roleIdFile) = some ⟨captured rid, "0644"⟩ ∧
    ∃ sid, (flake.value host .roleName, sid) ∈ minted ∧
      m.files (flake.value host .secretIdFile) = some ⟨captured sid, "0600"⟩

/-- Nix answers that the host has a vault-agent: an evaluation that fails counts as one that says no. -/
def SaysAgent (host : String) : Prop :=
  captured ((env.answer (.enabled host) (.ok (flake.agent host))).getD "false\n") = "true"

/-- What a host has before it is switched. -/
structure Prepared (host : String) (minted : List (String × String)) (m : Machine) : Prop where
  oec : ∀ archive ∈ cfg.installer, OecStaged archive m
  zero : SaysAgent flake env host → ZeroStaged flake bao host minted m

/-- No switch of the machine was begun. -/
def Unswitched (w : Fleet) (t : String) : Prop := ∀ s ∈ w.switches, cfg.target_for s.host ≠ t

/-- What every world of a run has kept, of the one that it started in. -/
structure Kept (w₀ w : Fleet) : Prop where
  files : ∀ t path, Unswitched cfg w t →
    (∀ h ∈ w.begun, cfg.target_for h = t → path ∉ flake.written h) →
    (w.machine t).files path = (w₀.machine t).files path
  running : ∀ t, Unswitched cfg w t → (w.machine t).running = (w₀.machine t).running
  secret : ∀ h ∈ ORDER, Unswitched cfg w (cfg.target_for h) → ∀ file,
    (w.machine (cfg.target_for h)).files (flake.value h .secretIdFile) = some file →
    file.mode = "0600" ∨
      (w₀.machine (cfg.target_for h)).files (flake.value h .secretIdFile) = some file
  switched : ∀ s ∈ w.switches, s.host ∈ w.begun
  prepared : ∀ s ∈ w.switches, Prepared flake bao env cfg s.host w.minted s.before

/-- The host runs what the flake has for it. -/
def Runs (w : Fleet) (host : String) : Prop :=
  captured (w.machine (cfg.target_for host)).running = captured (flake.toplevel host)

/-- How far a run is: the hosts that were begun, that were switched, and that are done. -/
structure Stage (begun switched done : List String) (w : Fleet) : Prop where
  begun : w.begun = begun
  switched : w.switches.map Switch.host = switched
  finished : w.finished = done
  runs : ∀ h ∈ done, Runs flake cfg w h

end Spec

/-! ### Steps that keep it -/

section Steps

variable {flake : Flake} {bao : OpenBao} {env : NixosEnv} {cfg : Settings} {w₀ w : Fleet}
  {host : String}

@[simp] theorem machine_put (w : Fleet) (t : String) (m : Machine) :
    (w.put t m).machine t = m := Function.update_self ..

theorem machine_put_of_ne {t t' : String} {m : Machine} (h : t' ≠ t) :
    (w.put t m).machine t' = w.machine t' := Function.update_of_ne h ..

theorem ZeroStaged.mono {minted minted' : List (String × String)} {m : Machine}
    (h : ZeroStaged flake bao host minted m) (hsub : ∀ p ∈ minted, p ∈ minted') :
    ZeroStaged flake bao host minted' m := by
  obtain ⟨rid, hrid, hrole, sid, hsid, hsecret⟩ := h
  exact ⟨rid, hrid, hrole, sid, hsub _ hsid, hsecret⟩

theorem Prepared.mono {minted minted' : List (String × String)} {m : Machine}
    (h : Prepared flake bao env cfg host minted m) (hsub : ∀ p ∈ minted, p ∈ minted') :
    Prepared flake bao env cfg host minted' m :=
  ⟨h.oec, fun hagent => (h.zero hagent).mono hsub⟩

theorem Kept.refl (hswitches : w.switches = []) : Kept flake bao env cfg w w where
  files _ _ _ _ := rfl
  running _ _ := rfl
  secret _ _ _ _ h := .inr h
  switched := by simp [hswitches]
  prepared := by simp [hswitches]

/-- A file of a host that was begun is written, the secret-id with its mode only. -/
theorem Kept.write (h : Kept flake bao env cfg w₀ w) (hhost : host ∈ ORDER)
    (hbegun : host ∈ w.begun) {path : String} (hpath : path ∈ flake.written host)
    {file : Option File}
    (hmode : flake.value host .secretIdFile = path → ∀ f ∈ file, f.mode = "0600") :
    Kept flake bao env cfg w₀ (w.put (cfg.target_for host)
      ((w.machine (cfg.target_for host)).write path file)) where
  files t p hun hp := by
    by_cases ht : t = cfg.target_for host
    · subst ht
      have hne : p ≠ path := fun he => hp host hbegun rfl (he ▸ hpath)
      rw [machine_put, Machine.files_write_of_ne hne]
      exact h.files _ _ hun hp
    · rw [machine_put_of_ne ht]
      exact h.files t p hun hp
  running t ht := by
    by_cases heq : t = cfg.target_for host
    · subst heq
      rw [machine_put]
      exact h.running _ ht
    · rw [machine_put_of_ne heq]
      exact h.running t ht
  secret g hg hun f hf := by
    by_cases ht : cfg.target_for g = cfg.target_for host
    · obtain rfl := target_for_inj hg hhost ht
      rw [machine_put] at hf
      by_cases hp : flake.value g .secretIdFile = path
      · rw [hp, Machine.files_write] at hf
        exact .inl (hmode hp f hf)
      · rw [Machine.files_write_of_ne hp] at hf
        exact h.secret g hg hun f hf
    · rw [machine_put_of_ne ht] at hf
      exact h.secret g hg hun f hf
  switched := h.switched
  prepared := h.prepared

/-- On a host whose switch was begun its own units may do anything. -/
theorem Kept.activate (h : Kept flake bao env cfg w₀ w) {t : String} (m : Machine)
    (hswitch : ∃ s ∈ w.switches, cfg.target_for s.host = t) :
    Kept flake bao env cfg w₀ (w.put t m) := by
  have hne : ∀ {t'}, Unswitched cfg w t' → t' ≠ t := by
    rintro t' hun rfl
    obtain ⟨s, hs, hst⟩ := hswitch
    exact hun s hs hst
  refine ⟨fun t' path hun hp => ?_, fun t' hun => ?_, fun g hg hun f hf => ?_, h.switched, h.prepared⟩
  · rw [machine_put_of_ne (hne hun)]
    exact h.files t' path hun hp
  · rw [machine_put_of_ne (hne hun)]
    exact h.running t' hun
  · rw [machine_put_of_ne (hne hun)] at hf
    exact h.secret g hg hun f hf

theorem Kept.begin (h : Kept flake bao env cfg w₀ w) (host : String) :
    Kept flake bao env cfg w₀ { w with begun := w.begun ++ [host] } where
  files t path hun hp := h.files t path hun fun g hg => hp g (List.mem_append_left _ hg)
  running := h.running
  secret := h.secret
  switched s hs := List.mem_append_left _ (h.switched s hs)
  prepared := h.prepared

theorem Kept.minting (h : Kept flake bao env cfg w₀ w) (p : String × String) :
    Kept flake bao env cfg w₀ { w with minted := w.minted ++ [p] } where
  files := h.files
  running := h.running
  secret := h.secret
  switched := h.switched
  prepared s hs := (h.prepared s hs).mono fun _ hp => List.mem_append_left _ hp

theorem Kept.switching (h : Kept flake bao env cfg w₀ w) (hbegun : host ∈ w.begun)
    (hready : Prepared flake bao env cfg host w.minted (w.machine (cfg.target_for host))) :
    Kept flake bao env cfg w₀
      { w with switches := w.switches ++ [⟨host, w.machine (cfg.target_for host)⟩] } where
  files t path hun := h.files t path fun s hs => hun s (List.mem_append_left _ hs)
  running t hun := h.running t fun s hs => hun s (List.mem_append_left _ hs)
  secret g hg hun := h.secret g hg fun s hs => hun s (List.mem_append_left _ hs)
  switched s hs := by
    obtain hs | hs := List.mem_append.mp hs
    · exact h.switched s hs
    · obtain rfl := List.mem_singleton.mp hs
      exact hbegun
  prepared s hs := by
    obtain hs | hs := List.mem_append.mp hs
    · exact h.prepared s hs
    · obtain rfl := List.mem_singleton.mp hs
      exact hready

/-- What happens to the machine of a host does not concern those that are done. -/
theorem Stage.put {begun switched done : List String} (h : Stage flake cfg begun switched done w)
    (hhost : host ∈ ORDER) (hdone : ∀ g ∈ done, g ∈ ORDER) (hnew : host ∉ done) (m : Machine) :
    Stage flake cfg begun switched done (w.put (cfg.target_for host) m) where
  begun := h.begun
  switched := h.switched
  finished := h.finished
  runs g hg := by
    have hne : cfg.target_for g ≠ cfg.target_for host := fun he =>
      hnew (target_for_inj (hdone g hg) hhost he ▸ hg)
    rw [Runs, machine_put_of_ne hne]
    exact h.runs g hg

/-- Nor does what a unit leaves of the files of any host. -/
theorem Stage.leave {begun switched done : List String} (h : Stage flake cfg begun switched done w)
    (t : String) (files : String → Option File) :
    Stage flake cfg begun switched done (w.put t { w.machine t with files }) where
  begun := h.begun
  switched := h.switched
  finished := h.finished
  runs g hg := by
    have hrunning : ((w.put t { w.machine t with files }).machine (cfg.target_for g)).running =
        (w.machine (cfg.target_for g)).running := by
      by_cases ht : cfg.target_for g = t
      · rw [ht, machine_put]
      · rw [machine_put_of_ne ht]
    rw [Runs, hrunning]
    exact h.runs g hg

end Steps

/-! ### The parts of a run -/

section Rules

variable {flake : Flake} {bao : OpenBao} {env : NixosEnv} {cfg : Settings} {w₀ : Fleet}
  {P Q : Fleet → Prop} {I : Fleet → Prop}

/-- A command that only reads leaves the world alone. -/
theorem reads {α : Type} {E : ℕ → Fleet → Prop} {i : Site} {f : Fleet → Except ℕ α} :
    Triple I P (Script.run env.toShellEnv i (.query f)) (fun _ => P) E :=
  Triple.run_query (fun _ _ _ h _ => h) fun _ _ h _ => h

theorem try_command_rule {E : ℕ → Fleet → Prop} {i : Site} :
    Triple I P (try_command env i) (fun _ => P) E :=
  Triple.bind reads fun _ => Triple.pure fun _ _ h => h

theorem must_rule {i : Site} : Triple I P (must env i) (fun _ => P) (fun e w => e ≠ 0 ∧ P w) := by
  refine Triple.bind (Q := fun _ => P) ?_ fun rc => ?_
  · refine Triple.status (fun _ h _ => h) (fun _ _ h _ => h) (fun _ _ _ h _ => h) ?_
    intro e done w _ _ h
    cases done with
    | true => exact h
    | false => exact h
  · show Triple _ _ (if _ then _ else _) _ _
    split_ifs with hrc
    · exact Triple.exit fun _ _ h => ⟨hrc, h⟩
    · exact Triple.pure fun _ _ h => h

/-- A command on a host: it may have done its work, whether it fails or not. -/
theorem try_on_rule {A : Fleet → Prop} {E : ℕ → Fleet → Prop} {i : Site} {t : String}
    {f : Machine → Except ℕ Machine} (hA : ∀ w, P w → A w)
    (h : ∀ w m, I w → P w → f (w.machine t) = .ok m →
      I (w.put t m) ∧ A (w.put t m) ∧ Q (w.put t m)) :
    Triple I P (try_on env i t f) (fun ok w => A w ∧ (ok = true → Q w)) E := by
  have hwork : ∀ w, I w → P w → I (on_host t f w).2 ∧ A (on_host t f w).2 := by
    intro w hI hP
    unfold on_host
    cases hf : f (w.machine t) with
    | ok m => exact ⟨(h w m hI hP hf).1, (h w m hI hP hf).2.1⟩
    | error e => exact ⟨hI, hA w hP⟩
  refine Triple.bind (Q := fun done w => A w ∧ (done.isSome = true → Q w)) ?_ fun _ =>
    Triple.pure fun _ _ h => h
  refine Triple.run (fun w hI hP => (hwork w hI hP).1) ?_ ?_ ?_
  · intro w a hI hP ha
    refine ⟨(hwork w hI hP).2, fun _ => ?_⟩
    unfold on_host at ha ⊢
    cases hf : f (w.machine t) with
    | ok m => exact (h w m hI hP hf).2.2
    | error e =>
      rw [hf] at ha
      exact nomatch ha
  · exact fun w e hI hP _ => ⟨(hwork w hI hP).2, nofun⟩
  · intro e done w _ hI hP
    cases done with
    | true => exact ⟨(hwork w hI hP).2, nofun⟩
    | false => exact ⟨hA w hP, nofun⟩

/-- A command, and what is done if it succeeds. -/
theorem then_rule {A R : Fleet → Prop} {E : ℕ → Fleet → Prop} {x y : Deploy Bool}
    (hx : Triple I P x (fun ok w => A w ∧ (ok = true → Q w)) E)
    (hy : Triple I Q y (fun ok w => A w ∧ (ok = true → R w)) E) :
    Triple I P (do let ok ← x; if !ok then return false else y)
      (fun ok w => A w ∧ (ok = true → R w)) E := by
  refine Triple.bind hx fun ok => ?_
  cases ok with
  | true => exact hy.weaken fun w _ h => h.2 rfl
  | false => exact Triple.pure fun w _ h => ⟨h.1, nofun⟩

/-- The host that a run is at. -/
structure At (flake : Flake) (cfg : Settings) (host : String) (done : List String) (w : Fleet) :
    Prop extends Stage flake cfg (done ++ [host]) done done w where
  known : host ∈ ORDER
  done_known : ∀ g ∈ done, g ∈ ORDER
  new : host ∉ done

variable {host : String} {done : List String} {S T : Fleet → Prop}

theorem At.put {w : Fleet} (h : At flake cfg host done w) (m : Machine) :
    At flake cfg host done (w.put (cfg.target_for host) m) :=
  ⟨h.toStage.put h.known h.done_known h.new m, h.known, h.done_known, h.new⟩

/-- A command that changes nothing, at a host. -/
theorem at_command_rule {E : ℕ → Fleet → Prop} {i : Site} :
    Triple I (fun w => At flake cfg host done w ∧ S w) (try_command env i)
      (fun ok w => At flake cfg host done w ∧ (ok = true → At flake cfg host done w ∧ S w)) E :=
  try_command_rule.conseq (fun _ _ h => h) (fun _ _ _ h => ⟨h.1, fun _ => h⟩) fun _ _ _ h => h

/-- A file is written on the host that the run is at. -/
theorem write_rule {E : ℕ → Fleet → Prop} {i : Site} {path : String}
    {f : Machine → Except ℕ Machine} (hpath : path ∈ flake.written host)
    (hf : ∀ w m, S w → f (w.machine (cfg.target_for host)) = .ok m →
      ∃ file, m = (w.machine (cfg.target_for host)).write path file ∧
        (flake.value host .secretIdFile = path → ∀ g ∈ file, g.mode = "0600") ∧
        T (w.put (cfg.target_for host) m)) :
    Triple (Kept flake bao env cfg w₀) (fun w => At flake cfg host done w ∧ S w)
      (try_on env i (cfg.target_for host) f)
      (fun ok w => At flake cfg host done w ∧ (ok = true → At flake cfg host done w ∧ T w)) E := by
  refine try_on_rule (fun _ h => h.1) ?_
  rintro w m hI ⟨hat, hS⟩ hm
  obtain ⟨file, rfl, hmode, hT⟩ := hf w m hS hm
  have hbegun : host ∈ w.begun := by simp [hat.begun]
  exact ⟨hI.write hat.known hbegun hpath hmode, hat.put _, hat.put _, hT⟩

/-- The archive is copied, and installed. -/
theorem stage_oec_rule {archive : String} (hsep : flake.Separate host) {E : ℕ → Fleet → Prop} :
    Triple (Kept flake bao env cfg w₀) (At flake cfg host done) (stage_oec env cfg archive host)
      (fun ok w => At flake cfg host done w ∧ (ok = true →
        At flake cfg host done w ∧ OecStaged archive (w.machine (cfg.target_for host)))) E := by
  have htmp : OEC_TMP ∈ flake.written host := by simp [Flake.written]
  have hdest : OEC_DEST ∈ flake.written host := by simp [Flake.written]
  have hne : OEC_DEST ≠ OEC_TMP := by decide
  refine then_rule (Q := fun w => At flake cfg host done w ∧
    (w.machine (cfg.target_for host)).files OEC_TMP = some ⟨archive, "0644"⟩) ?_ ?_
  · refine (write_rule (S := fun _ => True) htmp ?_).weaken fun _ _ h => ⟨h, trivial⟩
    intro w m _ hm
    obtain rfl := Except.ok.inj hm
    exact ⟨_, rfl, fun he => absurd he hsep.secret_ne_tmp, by simp⟩
  refine then_rule at_command_rule (then_rule (Q := fun w => At flake cfg host done w ∧
    OecStaged archive (w.machine (cfg.target_for host))) ?_ ?_)
  · refine write_rule hdest ?_
    intro w m hcopied hm
    rw [Machine.install, hcopied] at hm
    obtain rfl := Except.ok.inj hm
    exact ⟨_, rfl, fun he => absurd he hsep.secret_ne_dest, by simp [OecStaged]⟩
  · refine write_rule htmp ?_
    intro w m hstaged hm
    obtain rfl := Except.ok.inj hm
    refine ⟨_, rfl, fun he => absurd he hsep.secret_ne_tmp, ?_⟩
    rw [OecStaged, machine_put, Machine.files_write_of_ne hne]
    exact hstaged

/-- A file of the vault-agent is put in its place, with its mode. -/
theorem push_root_file_rule {a : Attr} {mode content : String}
    (hpath : flake.value host a ∈ flake.written host)
    (hmode : flake.value host .secretIdFile = flake.value host a → mode = "0600")
    (hS : ∀ w file, S w → S (w.put (cfg.target_for host)
      ((w.machine (cfg.target_for host)).write (flake.value host a) file)))
    {E : ℕ → Fleet → Prop} :
    Triple (Kept flake bao env cfg w₀) (fun w => At flake cfg host done w ∧ S w)
      (push_root_file flake env cfg host a mode content)
      (fun ok w => At flake cfg host done w ∧ (ok = true → At flake cfg host done w ∧ S w ∧
        (w.machine (cfg.target_for host)).files (flake.value host a) = some ⟨content, mode⟩)) E := by
  refine then_rule at_command_rule (then_rule (Q := fun w => At flake cfg host done w ∧ S w ∧
    (w.machine (cfg.target_for host)).files (flake.value host a) = some ⟨"", mode⟩) ?_ ?_)
  · refine write_rule hpath ?_
    intro w m h hm
    obtain rfl := Except.ok.inj hm
    refine ⟨_, rfl, ?_, hS w _ h, by simp [Machine.create]⟩
    rintro he g ⟨⟩
    exact hmode he
  · refine write_rule hpath ?_
    rintro w m ⟨h, hcreated⟩ hm
    obtain rfl := Except.ok.inj hm
    -- the file that is there keeps its mode
    have htee : (w.machine (cfg.target_for host)).tee (flake.value host a) content =
        (w.machine (cfg.target_for host)).write (flake.value host a) (some ⟨content, mode⟩) := by
      rw [Machine.tee, hcreated]
      rfl
    rw [htee]
    refine ⟨_, rfl, ?_, hS w _ h, by simp⟩
    rintro he g ⟨⟩
    exact hmode he

theorem eval_rule {E : ℕ → Fleet → Prop} {i : Site} {text : String} :
    Triple I P (eval_or_false env i text)
      (fun value w => value = captured ((env.answer i (.ok text)).getD "false\n") ∧ P w) E := by
  refine Triple.bind (Q := fun out w => out = env.answer i (.ok text) ∧ P w)
    (Triple.run_answer fun w _ h => ⟨rfl, h⟩) fun out => Triple.pure ?_
  rintro w - ⟨rfl, h⟩
  exact ⟨rfl, h⟩

theorem read_role_id_rule {E : ℕ → Fleet → Prop} :
    Triple I P (read_role_id flake bao env host)
      (fun rid w => (∀ id ∈ rid, bao.roleId (flake.value host .roleName) = some id) ∧ P w) E := by
  refine Triple.run_query ?_ fun w _ h _ => ⟨nofun, h⟩
  intro w id _ h hid
  refine ⟨?_, h⟩
  cases hread : bao.roleId (flake.value host .roleName) with
  | none => simp [hread] at hid
  | some id' =>
    simp only [hread, Except.ok.injEq] at hid
    rintro _ ⟨⟩
    exact congrArg some hid

/-- A secret-id that is minted, whether it arrives or not. -/
theorem mint_rule {E : ℕ → Fleet → Prop}
    (hS : ∀ w p, S w → S { w with minted := w.minted ++ [p] }) :
    Triple (Kept flake bao env cfg w₀) (fun w => At flake cfg host done w ∧ S w)
      (mint flake bao env host)
      (fun sid w => (At flake cfg host done w ∧ S w) ∧
        ∀ id ∈ sid, (flake.value host .roleName, id) ∈ w.minted) E := by
  have hat : ∀ w : Fleet, At flake cfg host done w → ∀ p,
      At flake cfg host done { w with minted := w.minted ++ [p] } := fun w h p =>
    ⟨⟨h.begun, h.switched, h.finished, h.runs⟩, h.known, h.done_known, h.new⟩
  rw [mint]
  cases bao.roleId (flake.value host .roleName) with
  | none =>
    refine Triple.run (fun w hI _ => hI) (fun w _ _ _ he => nomatch he)
      (fun w _ _ h _ => ⟨h, nofun⟩) fun _ made w _ _ h => ?_
    cases made with
    | true => exact ⟨h, nofun⟩
    | false => exact ⟨h, nofun⟩
  | some rid =>
    refine Triple.run (fun w hI _ => hI.minting _) ?_ (fun w _ _ _ he => nomatch he) ?_
    · intro w id _ h hid
      obtain rfl := Except.ok.inj hid
      refine ⟨⟨hat w h.1 _, hS w _ h.2⟩, ?_⟩
      rintro _ ⟨⟩
      exact List.mem_append_right _ (List.mem_singleton_self _)
    · intro _ made w _ _ h
      cases made with
      | true => exact ⟨⟨hat w h.1 _, hS w _ h.2⟩, nofun⟩
      | false => exact ⟨h, nofun⟩

/-- The archive stays where it is while another file is written. -/
theorem OecStaged.write {archive path : String} {w : Fleet} {t : String}
    (h : OecStaged archive (w.machine t)) (hne : path ≠ OEC_DEST) (file : Option File) :
    OecStaged archive ((w.put t ((w.machine t).write path file)).machine t) := by
  rw [machine_put, OecStaged, Machine.files_write_of_ne hne.symm]
  exact h

/-- The archive and the role-id are in their places, and a secret-id is minted. -/
def HalfStaged (flake : Flake) (cfg : Settings) (host archive rid sid : String) (w : Fleet) : Prop :=
  (OecStaged archive (w.machine (cfg.target_for host)) ∧
    (flake.value host .roleName, sid) ∈ w.minted) ∧
  (w.machine (cfg.target_for host)).files (flake.value host .roleIdFile) =
    some ⟨captured rid, "0644"⟩

/-- The role-id is read, a secret-id minted, and both are pushed. -/
theorem push_credentials_rule {archive : String} (hsep : flake.Separate host)
    {E : ℕ → Fleet → Prop} :
    Triple (Kept flake bao env cfg w₀)
      (fun w => At flake cfg host done w ∧ OecStaged archive (w.machine (cfg.target_for host)))
      (push_credentials flake bao env cfg host)
      (fun ok w => At flake cfg host done w ∧ (ok = true → At flake cfg host done w ∧
        OecStaged archive (w.machine (cfg.target_for host)) ∧
        ZeroStaged flake bao host w.minted (w.machine (cfg.target_for host)))) E := by
  have hrole : flake.value host .roleIdFile ∈ flake.written host := by simp [Flake.written]
  have hsecret : flake.value host .secretIdFile ∈ flake.written host := by simp [Flake.written]
  refine Triple.bind read_role_id_rule fun rid => Triple.of_fact fun hrid => ?_
  cases rid with
  | none => exact Triple.pure fun w _ h => ⟨h.1, nofun⟩
  | some rid =>
    refine Triple.bind (mint_rule fun _ _ h => h) fun sid => ?_
    cases sid with
    | none => exact Triple.pure fun w _ h => ⟨h.1.1, nofun⟩
    | some sid =>
      refine then_rule (Q := fun w => At flake cfg host done w ∧
        HalfStaged flake cfg host archive rid sid w) ?_ ?_
      · refine (push_root_file_rule hrole (fun he => absurd he hsep.secret_ne_role) ?_).weaken
          fun w _ h => ⟨h.1.1, h.1.2, h.2 sid rfl⟩
        exact fun w file h => ⟨h.1.write hsep.role_ne_dest file, h.2⟩
      · refine (push_root_file_rule (S := HalfStaged flake cfg host archive rid sid) hsecret (fun _ => rfl) ?_).conseq
          (fun _ _ h => h) ?_ fun _ _ _ h => h
        · rintro w file ⟨⟨hoec, hminted⟩, hfile⟩
          refine ⟨⟨hoec.write hsep.secret_ne_dest file, hminted⟩, ?_⟩
          rw [machine_put, Machine.files_write_of_ne hsep.secret_ne_role.symm]
          exact hfile
        · rintro ok w - ⟨hat, hok⟩
          refine ⟨hat, fun h => ?_⟩
          obtain ⟨-, ⟨⟨hoec, hminted⟩, hfile⟩, hsid⟩ := hok h
          exact ⟨hat, hoec, rid, hrid rid rfl, hfile, sid, hminted, hsid⟩

/-- The host is staged for its vault-agent, or has none. -/
theorem stage_vault_secret_zero_rule {archive token : String} (hinst : cfg.installer = some archive)
    (hsep : flake.Separate host) {E : ℕ → Fleet → Prop} :
    Triple (Kept flake bao env cfg w₀)
      (fun w => At flake cfg host done w ∧ OecStaged archive (w.machine (cfg.target_for host)))
      (stage_vault_secret_zero flake bao env cfg token host)
      (fun ok w => At flake cfg host done w ∧ (ok = true → At flake cfg host done w ∧
        Prepared flake bao env cfg host w.minted (w.machine (cfg.target_for host)))) E := by
  have hoec : ∀ {m : Machine}, OecStaged archive m → ∀ a ∈ cfg.installer, OecStaged a m := by
    intro m h a ha
    rw [hinst] at ha
    obtain rfl := Option.some.inj ha
    exact h
  refine Triple.bind eval_rule fun enabled => Triple.of_fact fun henabled => ?_
  show Triple _ _ (if _ then _ else if _ then _ else _) _ _
  split_ifs with hagent htoken
  · refine Triple.pure fun w _ h => ⟨h.1, fun _ => ⟨h.1, hoec h.2, fun hhas => ?_⟩⟩
    exact absurd (henabled.trans hhas) hagent
  · exact Triple.pure fun w _ h => ⟨h.1, nofun⟩
  · have hattr : ∀ a, Triple (Kept flake bao env cfg w₀)
        (fun w => At flake cfg host done w ∧ OecStaged archive (w.machine (cfg.target_for host)))
        (eval_attr flake env host a)
        (fun ok w => At flake cfg host done w ∧ (ok = true → At flake cfg host done w ∧
          OecStaged archive (w.machine (cfg.target_for host)))) E := by
      intro a
      exact Triple.bind reads fun _ => Triple.pure fun _ _ h => ⟨h.1, fun _ => h⟩
    refine then_rule (hattr _) (then_rule (hattr _) (then_rule (hattr _) ?_))
    refine (push_credentials_rule hsep).conseq (fun _ _ h => h) ?_ fun _ _ _ h => h
    exact fun ok w _ h => ⟨h.1, fun hok => ⟨h.1, hoec (h.2 hok).2.1, fun _ => (h.2 hok).2.2⟩⟩

end Rules

end DeployNixos
