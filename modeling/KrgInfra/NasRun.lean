/-
deploy-ansible: what a run of the NAS part does.

Every command of the subshell reads a store, a file, or nothing at all, and the loop over
the key names is the only part that writes to OpenBao.  So a run is told by a few functions
of the commands' outcomes and of the store: which credentials it writes, whether it gets
past its checks, and what the vars file holds when the play is started.

* `stored_pair`, `new_pair`, `puts_of`, `provisioned` — the loop over the key names;
* `reached`, `vars_content` — the rest of the subshell;
* `provision_keys_rule`, `final_eq` — the program does what these say.
-/
import KrgInfra.DeployAnsible

namespace DeployAnsible

/-! ### Functions of the outcomes and the store -/

/-- A credential is written. -/
def Put.write (put : Put) (store : Store) : Store :=
  Function.update store put.path (some (credential put.id put.secret))

/-- The store after some writes. -/
def replay (store : Store) (puts : List Put) : Store := puts.foldl (fun s put => put.write s) store

/-- The world after some writes. -/
def NasWorld.wrote (w : NasWorld) (puts : List Put) : NasWorld :=
  { w with store := replay w.store puts, puts := w.puts ++ puts }

@[simp] theorem NasWorld.wrote_nil (w : NasWorld) : w.wrote [] = w := by
  simp [NasWorld.wrote, replay]

theorem NasWorld.wrote_append (w : NasWorld) (l₁ l₂ : List Put) :
    w.wrote (l₁ ++ l₂) = (w.wrote l₁).wrote l₂ := by
  simp [NasWorld.wrote, replay]

@[simp] theorem NasWorld.store_wrote (w : NasWorld) (puts : List Put) :
    (w.wrote puts).store = replay w.store puts := rfl

section Outcomes

variable (env : NasEnv)

/-- The data of a path, as `bao kv get` gives it. -/
def got (i : Site) (stored : Option Fields) : Option Fields :=
  env.answer i (match stored with | some data => .ok data | none => .error 1)

/-- A field, as `$(jq -r …)` gives it. -/
def fieldText (i : Site) (data : Fields) (field : String) : String :=
  captured ((env.answer i (.ok (rawText env.text (orEmpty (data.get field)) ++ "\n"))).getD "")

/-- What `openssl rand` gives. -/
def randText (i : Site) (n : ℕ) : String :=
  captured ((env.answer i (.ok (String.ofList (hex (env.random i) n) ++ "\n"))).getD "")

/-- The credential that the loop reads. -/
def stored_pair (k : ℕ) (stored : Option Fields) : String × String :=
  match got env (.getKey k) stored with
  | some data =>
    (fieldText env (.keyId k) data "access_key_id",
      fieldText env (.keySecret k) data "secret_access_key")
  | none => ("", "")

/-- The credential that the loop makes. -/
def new_pair (k : ℕ) : String × String :=
  ("GK" ++ randText env (.randId k) 12, randText env (.randSecret k) 32)

/-- The loop makes a credential of its own. -/
def creates (k : ℕ) (stored : Option Fields) : Bool :=
  malformed (stored_pair env k stored).1 (stored_pair env k stored).2

/-- What one pass of the loop writes. -/
def turn_puts (k : ℕ) (name : String) (store : Store) : List Put :=
  if name ≠ "" ∧ creates env k (store (keyPath name)) ∧ env.takes (.putKey k) then
    [⟨keyPath name, store (keyPath name), (new_pair env k).1, (new_pair env k).2⟩]
  else []

/-- One pass of the loop ends the subshell. -/
def stops (k : ℕ) (name : String) (store : Store) : Bool :=
  name ≠ "" ∧ creates env k (store (keyPath name)) ∧ env.outcome (.putKey k) ≠ .ok

/-- What the loop writes. -/
def puts_of : ℕ → List String → Store → List Put
  | _, [], _ => []
  | k, name :: names, store =>
    turn_puts env k name store ++
      if stops env k name store then []
      else puts_of (k + 1) names (replay store (turn_puts env k name store))

/-- The loop comes to its end. -/
def provisioned : ℕ → List String → Store → Bool
  | _, [], _ => true
  | k, name :: names, store =>
    !stops env k name store &&
      provisioned (k + 1) names (replay store (turn_puts env k name store))

/-- Every credential gets into the map. -/
def added : ℕ → List String → Bool
  | _, [] => true
  | k, name :: names => (name = "" ∨ env.outcome (.addKey k) = .ok) && added (k + 1) names

/-- The key names of the spec. -/
@[irreducible] def Config.names (cfg : Config) : List String := linesOf (captured cfg.keyNames)

/-- What `_req` reads. -/
def group (store : Store) (path : String) : Option Fields := got env (.read path) (store path)

/-- The subshell gets to the key names. -/
def reached (store : Store) : Bool :=
  env.outcome .login = .ok && (group env store "secret/e4e-nas/garage").isSome &&
    (group env store "secret/e4e-nas/users").isSome &&
    (group env store "secret/e4e-nas/snmp").isSome && env.outcome .yq = .ok

/-- Nothing that the subshell checks is missing, and nothing that it checks fails. -/
def passes (cfg : Config) (store : Store) : Bool := reached env store && provisioned env 0 cfg.names store

/-- No command that the vars file is made with fails. -/
def vars_written (cfg : Config) (store : Store) : Bool :=
  env.outcome .mktemp = .ok && env.outcome (.groupData "secret/e4e-nas/garage") = .ok &&
    env.outcome (.groupData "secret/e4e-nas/users") = .ok &&
    env.outcome (.groupData "secret/e4e-nas/snmp") = .ok &&
    ((group env store "secret/e4e-nas/hyper-backup").isNone || env.outcome .backupData = .ok) &&
    added env 0 cfg.names && env.takes .vars

/-- What the play is started with: the variables, or nothing. -/
def VarsContent (cfg : Config) (store : Store) (content : Option Json) : Prop :=
  if vars_written env cfg store then
    ∃ g u s hb gk oidc dsmsso adjoin,
      store "secret/e4e-nas/garage" = some g ∧ store "secret/e4e-nas/users" = some u ∧
        store "secret/e4e-nas/snmp" = some s ∧
        content = some (vars_of g u s hb gk oidc dsmsso adjoin)
  else content = none

/-- How a run ends. -/
def RunEnds (cfg : Config) (store : Store) (rc : ℕ) (w : NasWorld) : Prop :=
  w.puts = (if reached env store then puts_of env 0 cfg.names store else []) ∧
    w.store = replay store w.puts ∧
    ((passes env cfg store ∧ ∃ content, w.starts = [content] ∧ VarsContent env cfg store content) ∨
      (¬ passes env cfg store ∧ w.starts = [] ∧ rc ≠ 0))

end Outcomes

/-! ### The loop over the key names -/

section Loop

variable {env : NasEnv} {k : ℕ} {name : String} {w : NasWorld} {E : ℕ → NasWorld → Prop}

/-- A command that only reads: its answer, and the same world. -/
theorem answer_rule {α : Type} {i : Site} {f : NasWorld → Except ℕ α} :
    Triple (fun _ => True) (· = w) (Script.run env.toShellEnv i (.query f))
      (fun r w' => r = env.answer i (f w) ∧ w' = w) E := by
  refine Triple.run_answer fun w' _ h => ?_
  rw [h]
  exact ⟨rfl, rfl⟩

theorem output_rule {i : Site} {f : NasWorld → Except ℕ String} :
    Triple (fun _ => True) (· = w) (Script.output env.toShellEnv i (.query f))
      (fun r w' => r = captured ((env.answer i (f w)).getD "") ∧ w' = w) E := by
  refine Triple.bind answer_rule fun out => ?_
  refine Triple.of_fact fun hout => ?_
  rw [hout]
  exact Triple.pure fun _ _ h => ⟨rfl, h⟩

theorem kv_get_rule {i : Site} {path : String} :
    Triple (fun _ => True) (· = w) (kv_get env i path)
      (fun r w' => r = got env i (w.store path) ∧ w' = w) E :=
  answer_rule

theorem read_key_rule :
    Triple (fun _ => True) (· = w) (read_key env k name)
      (fun pair w' => pair = stored_pair env k (w.store (keyPath name)) ∧ w' = w) E := by
  refine Triple.bind kv_get_rule fun kc => ?_
  refine Triple.of_fact fun hkc => ?_
  unfold stored_pair
  rw [← hkc]
  cases kc with
  | none => exact Triple.pure fun _ _ h => ⟨rfl, h⟩
  | some data =>
    refine Triple.bind output_rule fun akid => Triple.of_fact fun hid => ?_
    refine Triple.bind output_rule fun asec => Triple.of_fact fun hsec => ?_
    rw [hid, hsec]
    exact Triple.pure fun _ _ h => ⟨rfl, h⟩

/-- A new credential is written, or the subshell ends. -/
theorem create_key_rule :
    Triple (fun _ => True) (· = w) (create_key env k name)
      (fun pair w' => env.outcome (.putKey k) = .ok ∧ pair = new_pair env k ∧
        w' = w.wrote [⟨keyPath name, w.store (keyPath name), (new_pair env k).1, (new_pair env k).2⟩])
      (fun e w' => e ≠ 0 ∧ env.outcome (.putKey k) ≠ .ok ∧
        w' = w.wrote (if env.takes (.putKey k) then
          [⟨keyPath name, w.store (keyPath name), (new_pair env k).1, (new_pair env k).2⟩] else [])) := by
  refine Triple.bind output_rule fun id => Triple.of_fact fun hid => ?_
  refine Triple.bind output_rule fun asec => Triple.of_fact fun hsec => ?_
  obtain rfl : id = randText env (.randId k) 12 := hid
  obtain rfl : asec = randText env (.randSecret k) 32 := hsec
  refine Triple.bind (Triple.run_at fun _ => trivial) fun put => Triple.of_fact fun hput => ?_
  cases put with
  | some _ =>
    obtain ⟨ho, -⟩ := ShellEnv.answer_eq_some.mp hput.symm
    rw [ShellEnv.takes_of_ok ho, if_pos rfl]
    exact Triple.pure fun _ _ h => ⟨ho, rfl, h⟩
  | none =>
    have ho : env.outcome (.putKey k) ≠ .ok := by
      intro ho
      rw [ShellEnv.answer_of_ok ho] at hput
      exact absurd hput (by simp [Except.toOption])
    refine Triple.exit fun w' _ h => ⟨by decide, ho, ?_⟩
    rw [h]
    cases env.takes (.putKey k) with
    | true => rfl
    | false => simp

/-- The credential of a key: what is written, and whether the subshell ends there. -/
theorem read_or_create_rule (hname : name ≠ "") :
    Triple (fun _ => True) (· = w) (read_or_create env k name)
      (fun _ w' => stops env k name w.store = false ∧ w' = w.wrote (turn_puts env k name w.store))
      (fun e w' => e ≠ 0 ∧ stops env k name w.store = true ∧
        w' = w.wrote (turn_puts env k name w.store)) := by
  refine Triple.bind read_key_rule fun pair => Triple.of_fact fun hpair => ?_
  show Triple _ _ (if _ then _ else _) _ _
  by_cases hcreate : malformed pair.1 pair.2 = true
  · rw [if_pos hcreate]
    rw [hpair] at hcreate
    have hcreate : creates env k (w.store (keyPath name)) = true := hcreate
    refine create_key_rule.conseq (fun _ _ h => h) ?_ ?_
    · rintro pair' w' _ ⟨ho, -, hw'⟩
      have htakes := ShellEnv.takes_of_ok ho
      refine ⟨by simp [stops, ho], ?_⟩
      rw [hw', turn_puts, if_pos ⟨hname, hcreate, htakes⟩]
    · rintro e w' _ ⟨he, ho, hw'⟩
      refine ⟨he, by simp [stops, hname, hcreate, ho], ?_⟩
      rw [hw', turn_puts]
      by_cases htakes : env.takes (.putKey k) = true
      · rw [if_pos htakes, if_pos ⟨hname, hcreate, htakes⟩]
      · rw [if_neg htakes, if_neg fun h => htakes h.2.2]
  · rw [if_neg hcreate]
    rw [hpair] at hcreate
    have hcreate : creates env k (w.store (keyPath name)) = false := by simpa [creates] using hcreate
    refine Triple.pure fun w' _ hw' => ⟨by simp [stops, hcreate], ?_⟩
    have hputs : turn_puts env k name w.store = [] := by simp [turn_puts, hcreate]
    rw [hw', hputs, NasWorld.wrote_nil]

/-- One pass of the loop. -/
theorem provision_key_rule (keys : Option Members) :
    Triple (fun _ => True) (· = w) (provision_key env k name keys)
      (fun r w' => (r.isSome ↔ keys.isSome ∧ (name = "" ∨ env.outcome (.addKey k) = .ok)) ∧
        stops env k name w.store = false ∧ w' = w.wrote (turn_puts env k name w.store))
      (fun e w' => e ≠ 0 ∧ stops env k name w.store = true ∧
        w' = w.wrote (turn_puts env k name w.store)) := by
  unfold provision_key
  by_cases hname : name = ""
  · rw [if_pos hname]
    refine Triple.pure fun w' _ hw' => ⟨by simp [hname], by simp [stops, hname], ?_⟩
    have hputs : turn_puts env k name w.store = [] := by simp [turn_puts, hname]
    rw [hw', hputs, NasWorld.wrote_nil]
  · rw [if_neg hname]
    refine Triple.bind (read_or_create_rule hname) fun pair => ?_
    cases keys with
    | none => exact Triple.pure fun w' _ h => ⟨by simp, h⟩
    | some keys =>
      refine Triple.run_answer fun w' _ h => ⟨?_, h⟩
      rw [Option.isSome_iff_exists]
      simp [ShellEnv.answer_eq_some, hname]

/-- The loop over the key names. -/
theorem provision_keys_rule (names : List String) :
    ∀ k keys w, Triple (fun _ => True) (· = w) (provision_keys env k names keys)
      (fun r w' => (r.isSome ↔ keys.isSome ∧ added env k names) ∧
        provisioned env k names w.store = true ∧ w' = w.wrote (puts_of env k names w.store))
      (fun e w' => e ≠ 0 ∧ provisioned env k names w.store = false ∧
        w' = w.wrote (puts_of env k names w.store)) := by
  induction names with
  | nil =>
    intro k keys w
    exact Triple.pure fun w' _ hw' => ⟨by simp [added], rfl, by simp [puts_of, hw']⟩
  | cons name names ih =>
    intro k keys w
    refine Triple.bind ((provision_key_rule keys).except ?_) fun keys' => ?_
    · rintro e w' _ ⟨he, hstops, hw'⟩
      refine ⟨he, by simp [provisioned, hstops], ?_⟩
      simp [puts_of, hstops, hw']
    · refine Triple.of_fact fun hkeys => Triple.of_fact fun hstops => ?_
      -- the rest of the loop goes on from what this pass has written
      have hputs : puts_of env k (name :: names) w.store = turn_puts env k name w.store ++
          puts_of env (k + 1) names (replay w.store (turn_puts env k name w.store)) := by
        simp [puts_of, hstops]
      have hprov : provisioned env k (name :: names) w.store =
          provisioned env (k + 1) names (replay w.store (turn_puts env k name w.store)) := by
        simp [provisioned, hstops]
      rw [hputs, hprov, NasWorld.wrote_append]
      refine (ih (k + 1) keys' (w.wrote (turn_puts env k name w.store))).conseq (fun _ _ h => h) ?_
        fun _ _ _ h => h
      rintro r w' _ ⟨hr, h⟩
      refine ⟨?_, h⟩
      rw [hr, hkeys, added, Bool.and_eq_true, decide_eq_true_iff, and_assoc]

end Loop

/-! ### The whole run -/

section Run

variable {env : NasEnv} {cfg : Config} {store : Store} {w : NasWorld}

/-- The end of a subshell that has not got to the key names. -/
theorem RunEnds.of_not_reached (h : reached env store = false) (rc : ℕ) (hrc : rc ≠ 0) :
    RunEnds env cfg store rc (initial store) :=
  ⟨by simp [h, initial], rfl, .inr ⟨by simp [passes, h], rfl, hrc⟩⟩

/-- The end of a subshell whose loop has ended it. -/
theorem RunEnds.of_stopped (hreached : reached env store = true)
    (hprov : provisioned env 0 cfg.names store = false) (rc : ℕ) (hrc : rc ≠ 0) :
    RunEnds env cfg store rc ((initial store).wrote (puts_of env 0 cfg.names store)) :=
  ⟨by simp [hreached, initial, NasWorld.wrote], by simp [initial, NasWorld.wrote],
    .inr ⟨by simp [passes, hprov], rfl, hrc⟩⟩

/-- The end of a subshell that has started the play. -/
theorem RunEnds.of_started (hreached : reached env store = true)
    (hprov : provisioned env 0 cfg.names store = true) {content vars : Option Json}
    (hcontent : VarsContent env cfg store content) (rc : ℕ) :
    RunEnds env cfg store rc
      { (initial store).wrote (puts_of env 0 cfg.names store) with
        vars := vars, starts := [content] } :=
  ⟨by simp [hreached, initial, NasWorld.wrote], by simp [initial, NasWorld.wrote],
    .inl ⟨by simp [passes, hreached, hprov], content, rfl, hcontent⟩⟩

/-- `_req`: the data of its path, or the end of the subshell. -/
theorem required_rule {path : String} :
    Triple (fun _ => True) (· = w) (required env path)
      (fun data w' => group env w.store path = some data ∧ w' = w)
      (fun e w' => e ≠ 0 ∧ group env w.store path = none ∧ w' = w) := by
  refine Triple.bind kv_get_rule fun data => Triple.of_fact fun hdata => ?_
  have hdata : data = group env w.store path := hdata
  cases data with
  | none => exact Triple.exit fun _ _ h => ⟨by decide, hdata.symm, h⟩
  | some data => exact Triple.pure fun _ _ h => ⟨hdata.symm, h⟩

theorem key_names_rule {E : ℕ → NasWorld → Prop}
    (hE : env.outcome .yq ≠ .ok → E 1 w) :
    Triple (fun _ => True) (· = w) (key_names env cfg)
      (fun names w' => env.outcome .yq = .ok ∧ names = cfg.names ∧ w' = w) E := by
  refine Triple.bind answer_rule fun text => Triple.of_fact fun htext => ?_
  cases text with
  | none =>
    refine Triple.exit fun w' _ hw' => ?_
    rw [hw']
    refine hE fun ho => ?_
    rw [ShellEnv.answer_of_ok ho] at htext
    exact absurd htext (by simp [Except.toOption])
  | some text =>
    obtain ⟨ho, htext⟩ := ShellEnv.answer_eq_some.mp htext.symm
    refine Triple.pure fun _ _ h => ⟨ho, ?_, h⟩
    rw [← Except.ok.inj htext, Config.names]

/-- The jobs of Hyper Backup: whether there is a document. -/
theorem hyper_backup_rule {E : ℕ → NasWorld → Prop} :
    Triple (fun _ => True) (· = w) (hyper_backup env)
      (fun hb w' => hb.isSome = ((group env w.store "secret/e4e-nas/hyper-backup").isNone ||
        env.outcome .backupData = .ok) ∧ w' = w) E := by
  refine Triple.bind kv_get_rule fun data => Triple.of_fact fun hdata => ?_
  have hdata : data = group env w.store "secret/e4e-nas/hyper-backup" := hdata
  rw [← hdata]
  cases data with
  | none => exact Triple.pure fun _ _ h => ⟨rfl, h⟩
  | some data =>
    refine Triple.run_answer fun w' _ h => ⟨?_, h⟩
    rw [ShellEnv.answer]
    cases env.outcome .backupData <;> simp [Except.toOption]

/-- A datum that is there, as long as a command does not fail. -/
def unlessFails (env : NasEnv) (i : Site) (data : Fields) : Option Fields :=
  if env.outcome i = .ok then some data else none

theorem isSome_unlessFails {i : Site} {data : Fields} :
    (unlessFails env i data).isSome ↔ env.outcome i = .ok := by
  unfold unlessFails
  split_ifs with h <;> simp [h]

theorem unlessFails_of_ok {i : Site} {data : Fields} (h : env.outcome i = .ok) :
    unlessFails env i data = some data := if_pos h

theorem group_data_rule {path : String} {data : Fields} {E : ℕ → NasWorld → Prop} :
    Triple (fun _ => True) (· = w) (group_data env path data)
      (fun g w' => g = unlessFails env (.groupData path) data ∧ w' = w)
      E := by
  refine Triple.run_answer fun w' _ h => ⟨?_, h⟩
  rw [ShellEnv.answer, unlessFails]
  cases env.outcome (.groupData path) <;> simp [Except.toOption]

/-- The vars file: the document, where there is a file and jq writes it. -/
theorem write_vars_rule {file : Bool} {document : Option Json} {E : ℕ → NasWorld → Prop}
    (hw : w.vars = none) :
    Triple (fun _ => True) (· = w) (write_vars env file document)
      (fun _ w' => w' = { w with vars := if file ∧ env.takes .vars then document else none }) E := by
  have hnone : { w with vars := none } = w := by
    rw [← hw]
  unfold write_vars
  cases file with
  | false =>
    refine Triple.pure fun w' _ h => ?_
    simp [h, hnone]
  | true =>
    refine Triple.bind (Triple.run_at fun _ => trivial) fun _ => Triple.pure fun w' _ h => ?_
    rw [h.2]
    cases document with
    | none => cases env.takes .vars <;> simp [hnone]
    | some document => cases env.takes .vars <;> simp [hnone]

theorem run_playbook_rule {E : ℕ → NasWorld → Prop} :
    Triple (fun _ => True) (· = w) (run_playbook env)
      (fun _ w' => w' = { w with starts := w.starts ++ [w.vars] }) E := by
  refine Triple.bind (Q := fun _ w' => w' = { w with starts := w.starts ++ [w.vars] })
    (Triple.note fun w' _ h => ⟨trivial, by rw [h]⟩) fun _ => ?_
  refine Triple.status (fun _ _ _ => trivial) (fun _ _ h _ => h) nofun ?_
  intro e done w' _ _ h
  cases done <;> exact h

theorem vars_document_some (g u s : Fields) (hb : Json) (gk : Members) (oidc dsmsso adjoin : String) :
    vars_document (some g) (some u) (some s) (some hb) (some gk) oidc dsmsso adjoin =
      some (vars_of g u s hb gk oidc dsmsso adjoin) := rfl

/-- Without one of its arguments there is no document. -/
theorem vars_document_eq_none {g u s : Option Fields} {hb : Option Json} {gk : Option Members}
    {oidc dsmsso adjoin : String}
    (h : ¬ (g.isSome ∧ u.isSome ∧ s.isSome ∧ hb.isSome ∧ gk.isSome)) :
    vars_document g u s hb gk oidc dsmsso adjoin = none := by
  cases g with
  | none => rfl
  | some g =>
  cases u with
  | none => rfl
  | some u =>
  cases s with
  | none => rfl
  | some s =>
  cases hb with
  | none => rfl
  | some hb =>
  cases gk with
  | none => rfl
  | some gk => exact absurd ⟨rfl, rfl, rfl, rfl, rfl⟩ h

/-- What the vars file holds, when its document has been put together from what is there. -/
theorem vars_content_of {garage users snmp : Fields} {hb : Option Json} {keys : Option Members}
    {oidc dsmsso adjoin : String} (hg : store "secret/e4e-nas/garage" = some garage)
    (hu : store "secret/e4e-nas/users" = some users) (hs : store "secret/e4e-nas/snmp" = some snmp)
    (hhb : hb.isSome = ((group env store "secret/e4e-nas/hyper-backup").isNone ||
      env.outcome .backupData = .ok)) (hkeys : keys.isSome ↔ added env 0 cfg.names) :
    VarsContent env cfg store
      (if env.outcome .mktemp = .ok ∧ env.takes .vars then
        vars_document (unlessFails env (.groupData "secret/e4e-nas/garage") garage)
          (unlessFails env (.groupData "secret/e4e-nas/users") users)
          (unlessFails env (.groupData "secret/e4e-nas/snmp") snmp) hb keys oidc dsmsso adjoin
      else none) := by
  have hwritten : vars_written env cfg store = true ↔
      (env.outcome .mktemp = .ok ∧ env.takes .vars) ∧
        env.outcome (.groupData "secret/e4e-nas/garage") = .ok ∧
        env.outcome (.groupData "secret/e4e-nas/users") = .ok ∧
        env.outcome (.groupData "secret/e4e-nas/snmp") = .ok ∧ hb.isSome ∧ keys.isSome := by
    rw [hkeys, hhb]
    simp only [vars_written, Bool.and_eq_true, decide_eq_true_eq]
    constructor
    · rintro ⟨⟨⟨⟨⟨⟨hfile, h1⟩, h2⟩, h3⟩, h4⟩, h5⟩, htakes⟩
      exact ⟨⟨hfile, htakes⟩, h1, h2, h3, h4, h5⟩
    · rintro ⟨⟨hfile, htakes⟩, h1, h2, h3, h4, h5⟩
      exact ⟨⟨⟨⟨⟨⟨hfile, h1⟩, h2⟩, h3⟩, h4⟩, h5⟩, htakes⟩
  unfold VarsContent
  by_cases h : vars_written env cfg store = true
  · rw [if_pos h]
    obtain ⟨hfile, h1, h2, h3, h4, h5⟩ := hwritten.mp h
    obtain ⟨hb, rfl⟩ := Option.isSome_iff_exists.mp h4
    obtain ⟨keys, rfl⟩ := Option.isSome_iff_exists.mp h5
    refine ⟨garage, users, snmp, hb, keys, oidc, dsmsso, adjoin, hg, hu, hs, ?_⟩
    rw [if_pos hfile, unlessFails_of_ok h1, unlessFails_of_ok h2, unlessFails_of_ok h3,
      vars_document_some]
  · rw [if_neg h]
    rw [hwritten] at h
    by_cases hfile : env.outcome .mktemp = .ok ∧ env.takes .vars
    · rw [if_pos hfile]
      refine vars_document_eq_none fun ⟨h1, h2, h3, h4, h5⟩ => h ⟨hfile, ?_, ?_, ?_, h4, h5⟩
      · exact isSome_unlessFails.mp h1
      · exact isSome_unlessFails.mp h2
      · exact isSome_unlessFails.mp h3
    · rw [if_neg hfile]

/-- The data that `_req` has read is stored. -/
theorem stored_of_group {path : String} {data : Fields} (h : group env store path = some data) :
    store path = some data := by
  obtain ⟨-, h⟩ := ShellEnv.answer_eq_some.mp h
  cases hs : store path with
  | none =>
    rw [hs] at h
    exact nomatch h
  | some data' =>
    rw [hs] at h
    rw [Except.ok.inj h]

/-- The subshell, from the loop on. -/
theorem nas_play_rule (hreached : reached env store = true) {garage users snmp : Fields}
    {hb : Option Json} {oidc dsmsso adjoin : String}
    (hg : store "secret/e4e-nas/garage" = some garage)
    (hu : store "secret/e4e-nas/users" = some users) (hs : store "secret/e4e-nas/snmp" = some snmp)
    (hhb : hb.isSome = ((group env store "secret/e4e-nas/hyper-backup").isNone ||
      env.outcome .backupData = .ok)) :
    Triple (fun _ => True) (· = initial store)
      (nas_play env cfg.names (decide (env.outcome .mktemp = .ok)) garage users snmp oidc dsmsso
        adjoin hb)
      (RunEnds env cfg store) (RunEnds env cfg store) := by
  have hrule : Triple _ _ (provision_keys env 0 cfg.names (some [])) _ _ :=
    provision_keys_rule cfg.names 0 (some []) (initial store)
  have hloop := hrule.except
    (F := RunEnds env cfg store) ?_
  swap
  · rintro e w' - ⟨he, hprov, rfl⟩
    exact RunEnds.of_stopped hreached hprov e he
  refine Triple.bind hloop fun keys => ?_
  refine Triple.of_fact fun hkeys => Triple.of_fact fun hprov => ?_
  refine Triple.bind group_data_rule fun g => Triple.of_fact fun hg' => ?_
  refine Triple.bind group_data_rule fun u => Triple.of_fact fun hu' => ?_
  refine Triple.bind group_data_rule fun s => Triple.of_fact fun hs' => ?_
  refine Triple.bind (write_vars_rule (w := (initial store).wrote (puts_of env 0 cfg.names store)) rfl)
    fun _ => ?_
  refine run_playbook_rule.conseq (fun _ _ h => h) ?_ fun _ _ _ h => h
  rintro rc w' - rfl
  refine RunEnds.of_started hreached hprov ?_ rc
  rw [hg', hu', hs']
  simp only [decide_eq_true_eq]
  exact vars_content_of hg hu hs hhb (by simpa using hkeys)

/-- The subshell, from the first secret on. -/
theorem nas_apply_rule (hlogin : env.outcome .login = .ok) :
    Triple (fun _ => True) (· = initial store)
      (nas_apply env cfg (decide (env.outcome .mktemp = .ok)))
      (RunEnds env cfg store) (RunEnds env cfg store) := by
  have hstop : ∀ path, (group env store path = none → reached env store = false) →
      ∀ (e : ℕ) (w' : NasWorld), True → e ≠ 0 ∧ group env store path = none ∧ w' = initial store →
        RunEnds env cfg store e w' := by
    rintro path hpath e w' - ⟨he, hnone, rfl⟩
    exact RunEnds.of_not_reached (hpath hnone) e he
  refine Triple.bind ((required_rule (w := initial store)).except (hstop _ fun h => by simp [reached, h])) fun garage => ?_
  refine Triple.of_fact fun hg => ?_
  refine Triple.bind ((required_rule (w := initial store)).except (hstop _ fun h => by simp [reached, h])) fun users => ?_
  refine Triple.of_fact fun hu => ?_
  refine Triple.bind ((required_rule (w := initial store)).except (hstop _ fun h => by simp [reached, h])) fun snmp => ?_
  refine Triple.of_fact fun hs => ?_
  refine Triple.bind (output_rule (w := initial store)) fun oidc => Triple.of_fact fun _ => ?_
  refine Triple.bind (output_rule (w := initial store)) fun dsmsso => Triple.of_fact fun _ => ?_
  refine Triple.bind (output_rule (w := initial store)) fun adjoin => Triple.of_fact fun _ => ?_
  refine Triple.bind hyper_backup_rule fun hb => Triple.of_fact fun hhb => ?_
  refine Triple.bind (key_names_rule fun ho => ?_) fun names => ?_
  · exact RunEnds.of_not_reached (by simp [reached, ho]) 1 (by decide)
  refine Triple.of_fact fun hyq => Triple.of_fact fun hnames => ?_
  have hg : group env store "secret/e4e-nas/garage" = some garage := hg
  have hu : group env store "secret/e4e-nas/users" = some users := hu
  have hs : group env store "secret/e4e-nas/snmp" = some snmp := hs
  rw [hnames]
  refine nas_play_rule ?_ (stored_of_group hg) (stored_of_group hu) (stored_of_group hs) hhb
  simp [reached, hlogin, hg, hu, hs, hyq]

/-- The trap touches nothing but the vars file. -/
theorem remove_vars_rule {E : ℕ → NasWorld → Prop} {rc : ℕ} :
    Triple (fun _ => True) (RunEnds env cfg store rc) (remove_vars env)
      (fun _ => RunEnds env cfg store rc) E := by
  have hremove : ∀ i, Triple (fun _ => True) (RunEnds env cfg store rc)
      (Script.run env.toShellEnv i fun w => (.ok (), { w with vars := none }))
      (fun _ => RunEnds env cfg store rc) E := by
    intro i
    refine Triple.run (fun _ _ _ => trivial) (fun _ _ _ h _ => h) (fun _ _ _ h _ => h) ?_
    intro e done w' _ _ h
    cases done <;> exact h
  refine Triple.bind (hremove .shred) fun shredded => ?_
  cases shredded with
  | some _ => exact Triple.pure fun _ _ h => h
  | none => exact Triple.bind (hremove .rm) fun _ => Triple.pure fun _ _ h => h

/-- The subshell. -/
theorem nas_body_rule :
    Triple (fun _ => True) (· = initial store) (nas_body env cfg)
      (RunEnds env cfg store) (RunEnds env cfg store) := by
  refine Triple.bind answer_rule fun _ => Triple.of_fact fun _ => ?_
  refine Triple.bind answer_rule fun token => Triple.of_fact fun htoken => ?_
  cases token with
  | none =>
    refine Triple.exit fun w' _ h => ?_
    rw [h]
    refine RunEnds.of_not_reached ?_ 1 (by decide)
    have hlogin : env.outcome .login ≠ .ok := by
      intro ho
      rw [ShellEnv.answer_of_ok ho] at htoken
      exact nomatch htoken
    simp [reached, hlogin]
  | some _ =>
    obtain ⟨hlogin, -⟩ := ShellEnv.answer_eq_some.mp htoken.symm
    refine Triple.bind (Triple.run_at fun _ => trivial) fun file => Triple.of_fact fun hfile => ?_
    have hfile : file.isSome = decide (env.outcome .mktemp = .ok) := by
      rw [hfile, ShellEnv.answer]
      cases env.outcome .mktemp <;> simp [Except.toOption]
    rw [hfile]
    refine Triple.withFinally ((nas_apply_rule hlogin).weaken ?_) (fun _ => remove_vars_rule)
      fun _ => remove_vars_rule
    intro w' _ h
    rw [h]
    exact ite_self _

theorem deploy_synology_rule :
    Triple (fun _ => True) (· = initial store) (deploy_synology env cfg)
      (fun _ => RunEnds env cfg store 0) (RunEnds env cfg store) := by
  refine Triple.bind (Triple.subshell nas_body_rule) fun rc => ?_
  show Triple _ _ (if _ then _ else _) _ _
  split_ifs with hrc
  · refine Triple.exit fun w' _ h => ⟨h.1, h.2.1, ?_⟩
    obtain h | ⟨hp, hs, -⟩ := h.2.2
    · exact .inl h
    · exact .inr ⟨hp, hs, by decide⟩
  · rw [not_not] at hrc
    rw [hrc]
    exact Triple.pure fun _ _ h => h

/-- The exit status of a run, and the world that it ends in. -/
theorem final_ends (env : NasEnv) (cfg : Config) (store : Store) :
    RunEnds env cfg store (Script.exitStatus (deploy_synology env cfg) (initial store))
      (final env cfg store) :=
  Triple.exitStatus deploy_synology_rule trivial rfl

end Run

end DeployAnsible
