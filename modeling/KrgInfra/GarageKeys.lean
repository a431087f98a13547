/-
deploy-ansible: the credentials of the Garage keys are created once.

What is stored is read again by every run, and a credential that cannot be read counts as
absent.  So a run keeps what is stored as long as it can read it, and what it writes is well
formed as long as `openssl` draws; a run that fails to do either rotates a key, or stores
half of one.

* `WellFormed` — what is stored is a credential;
* `CarefulTurn`, `careful_turn_iff` — one pass of the loop, and exactly when it does no harm;
* `careful_run_iff` — one run;
* `keys_created_once` — a history of runs: no credential is written over, and those that are
  written are well formed, exactly if every run is careful;
* `failed_read_rotates` — a run whose `bao kv get` fails once.
-/
import KrgInfra.NasRun

namespace DeployAnsible

/-! ### Well-formed credentials -/

/-- A hexadecimal digit, in either case. -/
def isHex (c : Char) : Bool := isLowerHex c || ('A' ≤ c && c ≤ 'F')

/-- A key id of `GK` and 24 hexadecimal digits, and a secret of at least 32 characters. -/
def WellFormedPair (id secret : String) : Prop := isKeyId isHex id = true ∧ 32 ≤ secret.length

/-- What is stored has the credential `id`, `secret`. -/
def Holds (stored : Option Fields) (id secret : String) : Prop :=
  ∃ data, stored = some data ∧ data.get "access_key_id" = .str id ∧
    data.get "secret_access_key" = .str secret

/-- What is stored is a well-formed credential. -/
def WellFormed (stored : Option Fields) : Prop :=
  ∃ id secret, Holds stored id secret ∧ WellFormedPair id secret

theorem isKeyId_iff {digit : Char → Bool} {id : String} :
    isKeyId digit id = true ↔
      ∃ rest, id.toList = 'G' :: 'K' :: rest ∧ rest.length = 24 ∧ ∀ c ∈ rest, digit c = true := by
  unfold isKeyId
  split
  · next rest h =>
    rw [Bool.and_eq_true, decide_eq_true_iff, List.all_eq_true]
    constructor
    · exact fun hrest => ⟨rest, h, hrest⟩
    · rintro ⟨rest', h', hrest⟩
      rw [h] at h'
      obtain rfl : rest = rest' := by simpa using h'
      exact hrest
  · next h =>
    constructor
    · exact fun hf => absurd hf (by simp)
    · rintro ⟨rest, h', -⟩
      exact absurd h' (h rest)

/-- The code's pattern is for lower-case digits only. -/
theorem isKeyId_isHex {id : String} (h : isKeyId isLowerHex id = true) :
    isKeyId isHex id = true := by
  obtain ⟨rest, hid, hlen, hrest⟩ := isKeyId_iff.mp h
  refine isKeyId_iff.mpr ⟨rest, hid, hlen, fun c hc => ?_⟩
  rw [isHex, hrest c hc, Bool.true_or]

theorem isHex_text {c : Char} (h : isHex c = true) : c ≠ Char.ofNat 0 ∧ c ≠ '\n' := by
  constructor
  · rintro rfl
    exact absurd h (by decide)
  · rintro rfl
    exact absurd h (by decide)

/-- A key id is captured as it is. -/
theorem captured_keyId {id : String} (h : isKeyId isHex id = true) : captured id = id := by
  obtain ⟨rest, hid, -, hrest⟩ := isKeyId_iff.mp h
  refine captured_eq_self fun c hc => ?_
  rw [hid, List.mem_cons, List.mem_cons] at hc
  obtain rfl | rfl | hc := hc
  · decide
  · decide
  · exact isHex_text (hrest c hc)

theorem captured_empty : captured "" = "" := by decide

theorem malformed_false {id secret : String} :
    malformed id secret = false ↔ isKeyId isLowerHex id = true ∧ 32 ≤ secret.length := by
  simp [malformed]

/-- A credential without its id, or without its secret. -/
theorem malformed_empty_id (secret : String) : malformed "" secret = true := by
  have h : isKeyId isLowerHex "" = false := by decide
  simp [malformed, h]

theorem malformed_empty_secret (id : String) : malformed id "" = true := by
  simp [malformed]

/-! ### New credentials -/

theorem isLowerHex_digitChar : ∀ n < 16, isLowerHex (Nat.digitChar n) = true := by decide

theorem isLowerHex_hex {bytes : ℕ → Fin 256} {n : ℕ} : ∀ c ∈ hex bytes n, isLowerHex c = true := by
  intro c hc
  obtain ⟨i, -, hc⟩ := List.mem_flatMap.mp hc
  have hlow : (bytes i).val / 16 < 16 := by omega
  have hhigh : (bytes i).val % 16 < 16 := by omega
  rw [hexByte, List.mem_cons, List.mem_singleton] at hc
  obtain rfl | rfl := hc
  · exact isLowerHex_digitChar _ hlow
  · exact isLowerHex_digitChar _ hhigh

theorem length_hex (bytes : ℕ → Fin 256) (n : ℕ) : (hex bytes n).length = 2 * n := by
  induction n with
  | zero => rfl
  | succ n ih =>
    rw [hex] at ih ⊢
    rw [List.range_succ, List.flatMap_append, List.length_append, ih]
    simp only [List.flatMap_cons, List.flatMap_nil, List.append_nil, hexByte, List.length_cons,
      List.length_nil]
    omega

section Turn

variable {env : NasEnv} {k : ℕ}

/-- What `openssl` draws is captured as it is. -/
theorem randText_of_ok {i : Site} {n : ℕ} (h : env.outcome i = .ok) :
    randText env i n = String.ofList (hex (env.random i) n) := by
  rw [randText, ShellEnv.answer_of_ok h]
  show captured (String.ofList (hex (env.random i) n) ++ "\n") = _
  rw [captured_newline]
  refine captured_eq_self fun c hc => isHex_text ?_
  rw [String.toList_ofList] at hc
  rw [isHex, isLowerHex_hex c hc, Bool.true_or]

/-- If `openssl` fails there is nothing to capture. -/
theorem randText_of_not_ok {i : Site} {n : ℕ} (h : env.outcome i ≠ .ok) :
    randText env i n = "" := by
  rw [randText, ShellEnv.answer_of_not_ok h]
  exact captured_empty

/-- A new credential is well formed exactly if `openssl` has drawn both of its parts. -/
theorem new_pair_iff :
    WellFormedPair (new_pair env k).1 (new_pair env k).2 ↔
      env.outcome (.randId k) = .ok ∧ env.outcome (.randSecret k) = .ok := by
  constructor
  · rintro ⟨hid, hsecret⟩
    constructor
    · by_contra hne
      have hid : isKeyId isHex ("GK" ++ randText env (.randId k) 12) = true := hid
      rw [randText_of_not_ok hne] at hid
      exact absurd hid (by decide)
    · by_contra hne
      have hsecret : 32 ≤ (randText env (.randSecret k) 32).length := hsecret
      rw [randText_of_not_ok hne] at hsecret
      exact absurd hsecret (by decide)
  · rintro ⟨hid, hsecret⟩
    constructor
    · show isKeyId isHex ("GK" ++ randText env (.randId k) 12) = true
      rw [randText_of_ok hid]
      refine isKeyId_isHex (isKeyId_iff.mpr ⟨hex (env.random (.randId k)) 12, ?_, ?_, isLowerHex_hex⟩)
      · simp
      · rw [length_hex]
    · show 32 ≤ (randText env (.randSecret k) 32).length
      rw [randText_of_ok hsecret, String.length_ofList, length_hex]
      decide

/-! ### One pass of the loop -/

/-- A field that is a string, as `$(jq -r …)` gives it. -/
theorem fieldText_of_str {i : Site} {data : Fields} {field value : String}
    (h : data.get field = .str value) (ho : env.outcome i = .ok) :
    fieldText env i data field = captured value := by
  rw [fieldText, h, ShellEnv.answer_of_ok ho]
  show captured (value ++ "\n") = captured value
  exact captured_newline value

theorem fieldText_of_not_ok {i : Site} {data : Fields} {field : String}
    (h : env.outcome i ≠ .ok) : fieldText env i data field = "" := by
  rw [fieldText, ShellEnv.answer_of_not_ok h]
  exact captured_empty

/-- The three commands that read a credential. -/
def Reads (env : NasEnv) (k : ℕ) : Prop :=
  env.outcome (.getKey k) = .ok ∧ env.outcome (.keyId k) = .ok ∧ env.outcome (.keySecret k) = .ok

/-- What the loop reads, if it can. -/
theorem stored_pair_of_reads {stored : Option Fields} {id secret : String}
    (h : Holds stored id secret) (hr : Reads env k) :
    stored_pair env k stored = (captured id, captured secret) := by
  obtain ⟨data, rfl, hid, hsecret⟩ := h
  rw [stored_pair, got, ShellEnv.answer_of_ok hr.1]
  show (_, _) = _
  rw [fieldText_of_str hid hr.2.1, fieldText_of_str hsecret hr.2.2]

/-- A credential that the loop accepts is one that it could read. -/
theorem reads_of_not_creates {stored : Option Fields} (h : creates env k stored = false) :
    Reads env k := by
  unfold creates stored_pair at h
  cases hgot : got env (.getKey k) stored with
  | none =>
    rw [hgot] at h
    exact absurd (h.symm.trans (malformed_empty_id _)) (by simp)
  | some data =>
    rw [hgot] at h
    have h : malformed (fieldText env (.keyId k) data "access_key_id")
        (fieldText env (.keySecret k) data "secret_access_key") = false := h
    refine ⟨(ShellEnv.answer_eq_some.mp hgot).1, ?_, ?_⟩
    · by_contra hne
      rw [fieldText_of_not_ok hne] at h
      exact absurd (h.symm.trans (malformed_empty_id _)) (by simp)
    · by_contra hne
      rw [fieldText_of_not_ok hne] at h
      exact absurd (h.symm.trans (malformed_empty_secret _)) (by simp)

/-- A pass of the loop whose `bao kv put` would have its effect: a well-formed credential
can be read, its id is in lower case and its secret is as long when it is captured; and
where there is no credential to read, `openssl` draws one. -/
structure CarefulTurn (env : NasEnv) (k : ℕ) (stored : Option Fields) : Prop where
  reads : ∀ id secret, Holds stored id secret → WellFormedPair id secret →
    Reads env k ∧ isKeyId isLowerHex id = true ∧ 32 ≤ (captured secret).length
  draws : creates env k stored = true →
    env.outcome (.randId k) = .ok ∧ env.outcome (.randSecret k) = .ok

/-- Exactly the careful passes write over no credential, and write none that is not well
formed. -/
theorem careful_turn_iff {stored : Option Fields} :
    CarefulTurn env k stored ↔ (creates env k stored = true →
      ¬ WellFormed stored ∧ WellFormedPair (new_pair env k).1 (new_pair env k).2) := by
  constructor
  · intro h hcreates
    refine ⟨?_, new_pair_iff.mpr (h.draws hcreates)⟩
    rintro ⟨id, secret, hholds, hwf⟩
    obtain ⟨hreads, hlower, hlen⟩ := h.reads id secret hholds hwf
    rw [creates, stored_pair_of_reads hholds hreads] at hcreates
    have hok : malformed (captured id) (captured secret) = false := by
      rw [malformed_false, captured_keyId hwf.1]
      exact ⟨hlower, hlen⟩
    exact absurd (hcreates.symm.trans hok) (by simp)
  · intro h
    refine ⟨fun id secret hholds hwf => ?_, fun hcreates => new_pair_iff.mp (h hcreates).2⟩
    have hkept : creates env k stored = false := by
      by_contra hne
      exact (h (by simpa using hne)).1 ⟨id, secret, hholds, hwf⟩
    have hreads := reads_of_not_creates hkept
    rw [creates, stored_pair_of_reads hholds hreads, malformed_false, captured_keyId hwf.1] at hkept
    exact ⟨hreads, hkept⟩

end Turn

/-! ### One run -/

/-- The passes of the loop that are made are careful, or their `bao kv put` fails without an
effect. -/
def CarefulLoop (env : NasEnv) : ℕ → List String → Store → Prop
  | _, [], _ => True
  | k, name :: names, store =>
    (name ≠ "" → env.takes (.putKey k) = true → CarefulTurn env k (store (keyPath name))) ∧
      (stops env k name store = false →
        CarefulLoop env (k + 1) names (replay store (turn_puts env k name store)))

/-- A write that does no harm. -/
def Put.Fresh (put : Put) : Prop := ¬ WellFormed put.before ∧ WellFormedPair put.id put.secret

section Loop

variable {env : NasEnv}

theorem fresh_turn_iff {k : ℕ} {name : String} {store : Store} :
    (∀ put ∈ turn_puts env k name store, put.Fresh) ↔
      (name ≠ "" → env.takes (.putKey k) = true → CarefulTurn env k (store (keyPath name))) := by
  simp only [careful_turn_iff]
  unfold turn_puts
  split_ifs with h
  · obtain ⟨hname, hcreates, htakes⟩ := h
    rw [List.forall_mem_singleton]
    exact ⟨fun hput _ _ _ => hput, fun hput => hput hname htakes hcreates⟩
  · constructor
    · exact fun _ hname htakes hcreates => absurd ⟨hname, hcreates, htakes⟩ h
    · exact fun _ put hput => nomatch hput

/-- Exactly the careful loops do no harm. -/
theorem careful_loop_iff (names : List String) : ∀ k store,
    CarefulLoop env k names store ↔ ∀ put ∈ puts_of env k names store, put.Fresh := by
  induction names with
  | nil => exact fun k store => ⟨fun _ _ hput => (nomatch hput), fun _ => trivial⟩
  | cons name names ih =>
    intro k store
    rw [CarefulLoop, puts_of, List.forall_mem_append, fresh_turn_iff]
    cases hstops : stops env k name store with
    | true => simp
    | false => simp [ih]

/-- Every write names what was stored at its path before it. -/
def Linked : Store → List Put → Prop
  | _, [] => True
  | store, put :: puts => put.before = store put.path ∧ Linked (put.write store) puts

theorem Linked.append {l₁ l₂ : List Put} : ∀ {store : Store}, Linked store l₁ →
    Linked (replay store l₁) l₂ → Linked store (l₁ ++ l₂) := by
  induction l₁ with
  | nil => exact fun _ h => h
  | cons put l₁ ih => exact fun h₁ h₂ => ⟨h₁.1, ih h₁.2 h₂⟩

theorem linked_puts_of (names : List String) : ∀ k store, Linked store (puts_of env k names store) := by
  induction names with
  | nil => exact fun _ _ => trivial
  | cons name names ih =>
    intro k store
    refine Linked.append ?_ ?_
    · unfold turn_puts
      split_ifs
      · exact ⟨rfl, trivial⟩
      · trivial
    · split_ifs
      · trivial
      · exact ih _ _

/-- A credential that nothing is written over stays. -/
theorem replay_keeps {puts : List Put} {path : String} : ∀ {store : Store}, Linked store puts →
    (∀ put ∈ puts, ¬ WellFormed put.before) → WellFormed (store path) →
      replay store puts path = store path := by
  induction puts with
  | nil => exact fun _ _ _ => rfl
  | cons put puts ih =>
    intro store hlinked hputs hwf
    rw [List.forall_mem_cons] at hputs
    have hpath : path ≠ put.path := by
      rintro rfl
      exact hputs.1 (hlinked.1 ▸ hwf)
    have hstep : put.write store path = store path := Function.update_of_ne hpath _ _
    calc replay store (put :: puts) path = replay (put.write store) puts path := rfl
      _ = put.write store path := ih hlinked.2 hputs.2 (hstep ▸ hwf)
      _ = store path := hstep

end Loop

/-- A run of the script. -/
structure Run where
  env : NasEnv
  cfg : Config

/-- The world that a run on a store ends in. -/
def Run.final (run : Run) (store : Store) : NasWorld := DeployAnsible.final run.env run.cfg store

/-- A run whose loop, if it comes to that, is careful. -/
def CarefulRun (run : Run) (store : Store) : Prop :=
  reached run.env store = true → CarefulLoop run.env 0 run.cfg.names store

/-- Exactly the careful runs write over no credential, and write none that is not well
formed. -/
theorem careful_run_iff (run : Run) (store : Store) :
    CarefulRun run store ↔ ∀ put ∈ (run.final store).puts, put.Fresh := by
  have hputs := (final_ends run.env run.cfg store).1
  rw [CarefulRun, careful_loop_iff, Run.final, hputs]
  split_ifs with h
  · exact ⟨fun hc => hc h, fun hc _ => hc⟩
  · exact ⟨fun _ put hput => (nomatch hput), fun _ hr => absurd hr h⟩

/-- A careful run keeps the credentials. -/
theorem careful_run_keeps {run : Run} {store : Store} (h : CarefulRun run store) {path : String}
    (hwf : WellFormed (store path)) : (run.final store).store path = store path := by
  obtain ⟨hputs, hstore, -⟩ := final_ends run.env run.cfg store
  have hfresh := (careful_run_iff run store).mp h
  rw [Run.final, hstore]
  refine replay_keeps ?_ (fun put hput => (hfresh put hput).1) hwf
  rw [hputs]
  split_ifs
  · exact linked_puts_of _ _ _
  · trivial

/-! ### Histories -/

/-- The store after a history of runs. -/
def history : Store → List Run → Store
  | store, [] => store
  | store, run :: runs => history (run.final store).store runs

/-- Every run of a history is careful. -/
def CarefulRuns : Store → List Run → Prop
  | _, [] => True
  | store, run :: runs => CarefulRun run store ∧ CarefulRuns (run.final store).store runs

/-- The credentials of a history are created once: no run writes over one, what a run writes
is well formed, and one that is there at some time is there from then on. -/
structure CreatedOnce (store : Store) (runs : List Run) : Prop where
  writes : ∀ earlier run later, runs = earlier ++ run :: later →
    ∀ put ∈ (run.final (history store earlier)).puts, put.Fresh
  keeps : ∀ earlier later, runs = earlier ++ later → ∀ path,
    WellFormed (history store earlier path) → history store runs path = history store earlier path

/-- Careful runs keep what is there when they begin. -/
theorem careful_runs_keep {path : String} (runs : List Run) : ∀ {store : Store},
    CarefulRuns store runs → WellFormed (store path) → history store runs path = store path := by
  induction runs with
  | nil => exact fun _ _ => rfl
  | cons run runs ih =>
    intro store h hwf
    have hstep := careful_run_keeps h.1 hwf
    calc history store (run :: runs) path = history (run.final store).store runs path := rfl
      _ = (run.final store).store path := ih h.2 (hstep ▸ hwf)
      _ = store path := hstep

/-- **Created once.**  Over every history of runs, the credentials are created once exactly
if every run reads each well-formed credential it comes to, and draws each one it makes. -/
theorem keys_created_once (store : Store) (runs : List Run) :
    CarefulRuns store runs ↔ CreatedOnce store runs := by
  induction runs generalizing store with
  | nil =>
    refine ⟨fun _ => ⟨?_, ?_⟩, fun _ => trivial⟩
    · intro earlier run later h
      exact absurd h (by simp)
    · intro earlier later h path _
      rw [(List.append_eq_nil_iff.mp h.symm).1]
  | cons run runs ih =>
    rw [CarefulRuns, careful_run_iff, ih]
    constructor
    · rintro ⟨hrun, hruns⟩
      have hcareful : CarefulRuns store (run :: runs) :=
        ⟨(careful_run_iff run store).mpr hrun, (ih _).mpr hruns⟩
      constructor
      · intro earlier run' later h
        cases earlier with
        | nil =>
          obtain ⟨rfl, -⟩ := List.cons.inj h
          exact hrun
        | cons run'' earlier =>
          obtain ⟨rfl, htail⟩ := List.cons.inj h
          exact hruns.writes earlier run' later htail
      · intro earlier later h path hwf
        cases earlier with
        | nil => exact careful_runs_keep _ hcareful hwf
        | cons run'' earlier =>
          obtain ⟨rfl, htail⟩ := List.cons.inj h
          exact hruns.keeps earlier later htail path hwf
    · intro h
      refine ⟨h.writes [] run runs rfl, ?_, ?_⟩
      · exact fun earlier run' later he => h.writes (run :: earlier) run' later (by rw [he]; rfl)
      · exact fun earlier later he => h.keeps (run :: earlier) later (by rw [he]; rfl)

/-! ### A read that fails once -/

/-- The stored credential, as text. -/
def texts (stored : Option Fields) : Option (String × String) :=
  stored.map fun data =>
    (rawText (fun _ => "") (data.get "access_key_id"),
      rawText (fun _ => "") (data.get "secret_access_key"))

/-- A NAS whose secrets are all there, with the credential of one key. -/
def nas_store : Store := fun path =>
  if path = "secret/e4e-nas/garage" then
    some [("rpc_secret", .str "r"), ("admin_token", .str "a"), ("metrics_token", .str "m")]
  else if path = "secret/e4e-nas/users" then
    some [("e4e-admin", .str "p"), ("e4e-automation", .str "q")]
  else if path = "secret/e4e-nas/snmp" then
    some [("auth_password", .str "s"), ("priv_password", .str "t")]
  else if path = "secret/e4e-nas/garage-keys/backup" then
    some (credential "GK0123456789abcdef01234567" "0123456789abcdef0123456789abcdef")
  else none

/-- `bao kv get` fails once, for the key. -/
def failed_get : Run where
  env := { outcome := fun i => if i = .getKey 0 then .raise 1 false else .ok }
  cfg := ⟨"backup\n"⟩

/-- The stored credential is replaced by a new one, and the run exits 0. -/
theorem failed_read_rotates :
    ¬ CreatedOnce nas_store [failed_get] ∧
      texts (nas_store (keyPath "backup")) =
        some ("GK0123456789abcdef01234567", "0123456789abcdef0123456789abcdef") ∧
      texts ((failed_get.final nas_store).store (keyPath "backup")) =
        some ("GK000000000000000000000000",
          "0000000000000000000000000000000000000000000000000000000000000000") ∧
      Script.exitStatus (deploy_synology failed_get.env failed_get.cfg) (initial nas_store) = 0 := by
  have hbefore : texts (nas_store (keyPath "backup")) =
      some ("GK0123456789abcdef01234567", "0123456789abcdef0123456789abcdef") := by decide +kernel
  have hafter : texts ((failed_get.final nas_store).store (keyPath "backup")) =
      some ("GK000000000000000000000000",
        "0000000000000000000000000000000000000000000000000000000000000000") := by decide +kernel
  refine ⟨fun h => ?_, hbefore, hafter, by decide +kernel⟩
  have hwf : WellFormed (nas_store (keyPath "backup")) :=
    ⟨_, _, ⟨_, rfl, rfl, rfl⟩, by decide, by decide⟩
  have hkeeps : (failed_get.final nas_store).store (keyPath "backup") = nas_store (keyPath "backup") :=
    h.keeps [] [failed_get] rfl _ hwf
  rw [hkeeps, hbefore] at hafter
  exact absurd hafter (by decide)

end DeployAnsible
