/-
A reboot of the fleet (`deploy/reboot-fleet.sh`).

The script reads the boot id of a host, has it rebooted, and polls it until it answers with another
id; only then it comes to the next host.  A host that is not back in time ends the run.  Meanwhile
the hosts go down and come up on their own, and ssh gets through to them or not.

* `requested`, `order` — the hosts that the arguments name, or all of them;
* `Script`, `Machine`, `happen` — the lines of the script, the hosts, and what either does next;
* `Followed`, `followed_step` — what is known of one host, and that every event keeps it;
* `one_host_away` — no two hosts are away at a time;
* `reboots_told` — what the exit status says of the hosts;
* `reboots_end` — a run ends, whatever the hosts do.

The commands that reboot a host have one effect, so their texts are left out, as are the options of
ssh and what the script prints.
-/
import KrgInfra.Interleaving
import Mathlib.Logic.Function.Basic

namespace FleetReboot

open Interleaving

/-! ### The hosts of a run -/

def ADDR : List (String × String) :=
  [("krg-vault", "krg-vault.ucsd.edu"), ("krg-ldap", "krg-ldap.ucsd.edu"),
    ("krg-prod", "krg-prod.ucsd.edu"), ("waiter", "waiter.ucsd.edu"),
    ("kastner-ml", "kastner-ml.ucsd.edu"), ("e4e-prod", "e4e-prod.ucsd.edu"),
    ("krg-nat", "krg-nat.ucsd.edu"), ("e4e-nas", "132.239.17.124")]

def USER_OVERRIDE : List (String × String) :=
  [("kastner-ml", "e4e-admin"), ("e4e-prod", "e4e-admin"), ("e4e-nas", "e4e-admin")]

def ORDER : List String :=
  ["krg-ldap", "krg-vault", "krg-prod", "e4e-prod", "krg-nat", "waiter", "kastner-ml", "e4e-nas"]

/-- What a run takes from its environment. -/
structure Settings where
  /-- `DEPLOY_ADMIN` -/
  admin : String := "krg-admin"
  /-- `REBOOT_WAIT_TIMEOUT` -/
  timeout : ℕ := 900
  /-- `REBOOT_POLL_INTERVAL` -/
  interval : ℕ := 10

def Settings.target (cfg : Settings) (host : String) : String :=
  (USER_OVERRIDE.lookup host).getD cfg.admin ++ "@" ++ (ADDR.lookup host).getD ""

/-- `IFS=', ' read -r -a requested <<<"$*"`, and no empty token of it -/
def requested (args : List String) : List String :=
  ((((" ".intercalate args).toList.takeWhile (· ≠ '\n')).splitOnP fun c =>
    c = ',' || c = ' ').filter (· ≠ [])).map String.ofList

/-- The hosts to reboot, in their order, or an unknown one. -/
def order (args : List String) : Except String (List String) :=
  match (requested args).find? fun h => (ADDR.lookup h).isNone with
  | some h => .error h
  | none => .ok (if requested args = [] then ORDER else requested args)

/-! ### The script and the machines -/

/-- The line that the script comes to next. -/
inductive Line where
  /-- `for host in "${ORDER[@]}"` -/
  | next
  /-- `before="$(boot_id "$target")"` -/
  | before (host : String)
  /-- `issue_out="$(ssh … "$cmd" 2>&1)" || true` -/
  | issue (host before : String)
  /-- `while (( waited < REBOOT_WAIT_TIMEOUT ))` -/
  | poll (host before : String) (waited : ℕ)
  /-- `exit 1`: the arguments name an unknown host. -/
  | refused (host : String)
  /-- `exit 1`: a host did not return. -/
  | stopped (host : String)
  | finished

structure Script where
  line : Line
  rest : List String
  /-- The hosts that are back up, and after how many seconds they were. -/
  back : List (String × ℕ) := []

def Script.status (s : Script) : Option ℕ :=
  match s.line with
  | .refused _ | .stopped _ => some 1
  | .finished => some 0
  | _ => none

inductive Power where
  | up
  /-- Up, with a reboot that is due. -/
  | scheduled
  | down
  deriving DecidableEq

structure Machine where
  /-- How often it has booted. -/
  boots : ℕ
  power : Power

/-- On its way down, or down. -/
def Machine.Away (m : Machine) : Prop := m.power ≠ .up

/-- What the machines show as `/proc/sys/kernel/random/boot_id`: every boot has an id of its own. -/
structure Kernels where
  bootId : String → ℕ → String
  nonempty (target : String) (n : ℕ) : bootId target n ≠ ""
  fresh (target : String) : Function.Injective (bootId target)

/-- The script, and the machine of each ssh target. -/
structure World where
  script : Script
  fleet : String → Machine

def start (args : List String) (fleet : String → Machine) : World :=
  match order args with
  | .error h => ⟨⟨.refused h, [], []⟩, fleet⟩
  | .ok hosts => ⟨⟨.next, hosts, []⟩, fleet⟩

inductive Event where
  /-- The script does its next line; ssh gets through or not. -/
  | line (reached : Bool)
  /-- A machine whose reboot is due goes down. -/
  | goesDown (target : String)
  | comesUp (target : String)

section Events

variable (K : Kernels) (cfg : Settings)

/-- What `boot_id` prints: nothing where the host is not reached. -/
def boot_id (w : World) (reached : Bool) (host : String) : String :=
  if reached ∧ (w.fleet (cfg.target host)).power ≠ .down then
    K.bootId (cfg.target host) (w.fleet (cfg.target host)).boots
  else ""

def Machine.schedule (m : Machine) : Machine :=
  if m.power = .down then m else { m with power := .scheduled }

def World.goto (w : World) (line : Line) : World := { w with script := { w.script with line } }

/-- The next line of the script. -/
def work (w : World) (reached : Bool) : Option World :=
  match w.script.line with
  | .next =>
    match w.script.rest with
    | [] => some (w.goto .finished)
    | host :: rest => some { w with script := { w.script with line := .before host, rest } }
  | .before host =>
    let before := boot_id K cfg w reached host
    some (w.goto (if before = "" then .stopped host else .issue host before))
  | .issue host before =>
    -- the exit status of the command is not looked at
    let fleet := if reached then
      Function.update w.fleet (cfg.target host) (w.fleet (cfg.target host)).schedule else w.fleet
    some { w.goto (.poll host before 0) with fleet }
  | .poll host before waited =>
    if waited < cfg.timeout then
      let waited := waited + cfg.interval
      let after := boot_id K cfg w reached host
      if after ≠ "" ∧ after ≠ before then
        some { w with script :=
          ⟨.next, w.script.rest, w.script.back ++ [(host, waited)]⟩ }
      else some (w.goto (.poll host before waited))
    else some (w.goto (.stopped host))
  | .refused _ | .stopped _ | .finished => none

/-- What an event makes of the world; `none` where it cannot happen. -/
def happen (w : World) : Event → Option World
  | .line reached => work K cfg w reached
  | .goesDown t =>
    if (w.fleet t).power = .scheduled then
      some { w with fleet := Function.update w.fleet t { w.fleet t with power := .down } }
    else none
  | .comesUp t =>
    if (w.fleet t).power = .down then
      some { w with fleet := Function.update w.fleet t ⟨(w.fleet t).boots + 1, .up⟩ }
    else none

/-! ### What an event can do -/

/-- What a line of the script can change. -/
inductive Turn (w : World) : World → Prop where
  | finish (hline : w.script.line = .next) (hrest : w.script.rest = []) :
      Turn w (w.goto .finished)
  | take {host : String} {rest : List String} (hline : w.script.line = .next)
      (hrest : w.script.rest = host :: rest) :
      Turn w { w with script := { w.script with line := .before host, rest } }
  | unreachable {host : String} (hline : w.script.line = .before host) :
      Turn w (w.goto (.stopped host))
  | found {host : String} (hline : w.script.line = .before host) :
      Turn w (w.goto (.issue host
        (K.bootId (cfg.target host) (w.fleet (cfg.target host)).boots)))
  | issued {host before : String} {m : Machine} (hline : w.script.line = .issue host before)
      (hboots : m.boots = (w.fleet (cfg.target host)).boots) :
      Turn w { w.goto (.poll host before 0) with
        fleet := Function.update w.fleet (cfg.target host) m }
  | back {host before : String} {waited : ℕ} (hline : w.script.line = .poll host before waited)
      (hwaited : waited < cfg.timeout)
      (hid : K.bootId (cfg.target host) (w.fleet (cfg.target host)).boots ≠ before) :
      Turn w { w with script :=
        ⟨.next, w.script.rest, w.script.back ++ [(host, waited + cfg.interval)]⟩ }
  | waiting {host before : String} {waited : ℕ} (hline : w.script.line = .poll host before waited)
      (hwaited : waited < cfg.timeout) :
      Turn w (w.goto (.poll host before (waited + cfg.interval)))
  | lost {host before : String} {waited : ℕ} (hline : w.script.line = .poll host before waited) :
      Turn w (w.goto (.stopped host))

/-- What an event can change. -/
inductive Change (w : World) : World → Prop where
  | turn {w' : World} (h : Turn K cfg w w') : Change w w'
  | goesDown {t : String} (hpower : (w.fleet t).power = .scheduled) :
      Change w { w with fleet := Function.update w.fleet t { w.fleet t with power := .down } }
  | comesUp {t : String} (hpower : (w.fleet t).power = .down) :
      Change w { w with fleet := Function.update w.fleet t ⟨(w.fleet t).boots + 1, .up⟩ }

variable {K cfg} {w w' : World}

@[simp] theorem schedule_boots (m : Machine) : m.schedule.boots = m.boots := by
  rw [Machine.schedule]
  split_ifs <;> rfl

theorem boot_id_of_ne {reached : Bool} {host : String} (h : boot_id K cfg w reached host ≠ "") :
    boot_id K cfg w reached host =
      K.bootId (cfg.target host) (w.fleet (cfg.target host)).boots := by
  rw [boot_id] at h ⊢
  split_ifs at h ⊢ with hreached
  · rfl
  · exact absurd rfl h

/-- The lines of the script. -/
theorem turn_of_work {reached : Bool} (h : work K cfg w reached = some w') :
    Turn K cfg w w' := by
  rw [work] at h
  cases hline : w.script.line with rw [hline] at h
  | next =>
    cases hrest : w.script.rest with
    | nil =>
      simp only [hrest] at h
      obtain rfl := Option.some.inj h
      exact .finish hline hrest
    | cons host rest =>
      simp only [hrest] at h
      obtain rfl := Option.some.inj h
      exact .take hline hrest
  | before host =>
    obtain rfl := Option.some.inj h
    by_cases hid : boot_id K cfg w reached host = ""
    · rw [if_pos hid]
      exact .unreachable hline
    · rw [if_neg hid, boot_id_of_ne hid]
      exact .found hline
  | issue host before =>
    obtain rfl := Option.some.inj h
    cases reached with
    | true => exact .issued hline (schedule_boots _)
    | false =>
      -- the command has not arrived: the machine stays as it is
      have hsame : Turn K cfg w { w.goto (.poll host before 0) with
          fleet := Function.update w.fleet (cfg.target host) (w.fleet (cfg.target host)) } :=
        .issued hline rfl
      rwa [Function.update_eq_self] at hsame
  | poll host before waited =>
    dsimp only at h
    split_ifs at h with hwaited hid
    · obtain rfl := Option.some.inj h
      rw [boot_id_of_ne hid.1] at hid
      exact .back hline hwaited hid.2
    · obtain rfl := Option.some.inj h
      exact .waiting hline hwaited
    · obtain rfl := Option.some.inj h
      exact .lost hline
  | refused host => exact nomatch h
  | stopped host => exact nomatch h
  | finished => exact nomatch h

theorem change_of_happen {e : Event} (h : happen K cfg w e = some w') : Change K cfg w w' := by
  cases e with
  | line reached => exact .turn (turn_of_work h)
  | goesDown t =>
    rw [happen] at h
    split_ifs at h with hpower
    obtain rfl := Option.some.inj h
    exact .goesDown hpower
  | comesUp t =>
    rw [happen] at h
    split_ifs at h with hpower
    obtain rfl := Option.some.inj h
    exact .comesUp hpower

/-! ### One host -/

/-- The host that the script is at. -/
def Line.current : Line → Option String
  | .before host | .issue host _ | .poll host _ _ | .stopped host => some host
  | _ => none

/-- The host that the script has sent a reboot to, or has given up. -/
def Line.busy : Line → Option String
  | .poll host _ _ | .stopped host => some host
  | _ => none

/-- What a line relies on, of the machine that it is about: as it was at first, and as it is. -/
def Line.Relies (K : Kernels) (t : String) (m₀ m : Machine) : Line → Prop
  | .issue _ seen => ∃ n, seen = K.bootId t n ∧ m₀.boots ≤ n ∧ n ≤ m.boots ∧
      (¬ m₀.Away → m.boots = n)
  | .poll _ seen _ => ∃ n, seen = K.bootId t n ∧ m₀.boots ≤ n ∧ n ≤ m.boots ∧
      (¬ m₀.Away → m.boots = n ∨ m.boots = n + 1 ∧ ¬ m.Away)
  | _ => True

/-- What is known of a machine that the run has found as `m₀`, and that is `m` now. -/
structure Followed (K : Kernels) (cfg : Settings) (m₀ : Machine) (t : String) (s : Script)
    (m : Machine) : Prop where
  boots_le : m₀.boots ≤ m.boots
  back : ∀ p ∈ s.back, cfg.target p.1 = t → m₀.boots < m.boots
  relies : ∀ host ∈ s.line.current, cfg.target host = t → s.line.Relies K t m₀ m
  settled : ¬ m₀.Away → m.Away → ∃ host ∈ s.line.busy, cfg.target host = t
  untouched : ¬ m₀.Away → (∀ host ∈ s.line.busy, cfg.target host ≠ t) →
    (∀ p ∈ s.back, cfg.target p.1 ≠ t) → m = m₀

variable {m₀ m m' : Machine} {t : String} {s s' : Script}

/-- The script comes to another line, and the machine stays as it is. -/
theorem Followed.goto (h : Followed K cfg m₀ t s m) (hback : s'.back = s.back)
    (hbusy : ∀ host ∈ s.line.busy, host ∈ s'.line.busy)
    (hrelies : ∀ host ∈ s'.line.current, cfg.target host = t → s'.line.Relies K t m₀ m) :
    Followed K cfg m₀ t s' m where
  boots_le := h.boots_le
  back := hback ▸ h.back
  relies := hrelies
  settled hm₀ haway := by
    obtain ⟨host, hhost, ht⟩ := h.settled hm₀ haway
    exact ⟨host, hbusy host hhost, ht⟩
  untouched hm₀ hnot hnone :=
    h.untouched hm₀ (fun host hhost => hnot host (hbusy host hhost)) (hback ▸ hnone)

/-- A machine that answers with another boot id is up again. -/
theorem followed_back (h : Followed K cfg m₀ t s m) {host before : String} {waited seconds : ℕ}
    (hline : s.line = .poll host before waited)
    (hid : cfg.target host = t → K.bootId t m.boots ≠ before) :
    Followed K cfg m₀ t ⟨.next, s.rest, s.back ++ [(host, seconds)]⟩ m := by
  have hbusy : ∀ host' ∈ s.line.busy, host = host' := by
    rw [hline]
    exact fun host' h => Option.some.inj h
  -- its id has changed, so it has booted since
  have hbooted : cfg.target host = t → m₀.boots < m.boots ∧ (¬ m₀.Away → ¬ m.Away) := by
    intro ht
    have hrelies := h.relies host (by rw [hline]; rfl) ht
    rw [hline] at hrelies
    obtain ⟨n, rfl, hfirst, hn, hstep⟩ := hrelies
    have hne : m.boots ≠ n := fun heq => hid ht (congrArg _ heq)
    refine ⟨by omega, fun hm₀ => ?_⟩
    obtain heq | ⟨-, hup⟩ := hstep hm₀
    · exact absurd heq hne
    · exact hup
  constructor
  · exact h.boots_le
  · intro p hp ht
    obtain hp | hp := List.mem_append.mp hp
    · exact h.back p hp ht
    · obtain rfl := List.mem_singleton.mp hp
      exact (hbooted ht).1
  · exact fun host' hhost' => nomatch hhost'
  · intro hm₀ haway
    obtain ⟨host', hhost', ht⟩ := h.settled hm₀ haway
    obtain rfl := hbusy host' hhost'
    exact absurd haway ((hbooted ht).2 hm₀)
  · intro hm₀ _ hback
    refine h.untouched hm₀ (fun host' hhost' => ?_) fun p hp =>
      hback p (List.mem_append_left _ hp)
    obtain rfl := hbusy host' hhost'
    exact hback (host, seconds) (List.mem_append_right _ (List.mem_singleton_self _))

/-- A reboot is sent to the machine that the line has read. -/
theorem followed_issued (h : Followed K cfg m₀ t s m) {host before : String}
    (hline : s.line = .issue host before) (hboots : m'.boots = m.boots)
    (hsame : cfg.target host ≠ t → m' = m) :
    Followed K cfg m₀ t { s with line := .poll host before 0 } m' := by
  have hup : ¬ m₀.Away → ¬ m.Away := by
    intro hm₀ haway
    obtain ⟨host', hhost', -⟩ := h.settled hm₀ haway
    rw [hline] at hhost'
    exact nomatch hhost'
  constructor
  · have := h.boots_le
    omega
  · intro p hp ht
    have := h.back p hp ht
    omega
  · intro host' hhost' ht
    have hrelies := h.relies host' (by rw [hline]; exact hhost') ht
    rw [hline] at hrelies
    obtain ⟨n, hbefore, hfirst, hn, hstep⟩ := hrelies
    exact ⟨n, hbefore, hfirst, by omega, fun hm₀ => .inl (by rw [hboots, hstep hm₀])⟩
  · intro hm₀ haway
    refine ⟨host, rfl, ?_⟩
    by_contra hne
    exact hup hm₀ (hsame hne ▸ haway)
  · intro hm₀ hnot hback
    rw [hsame (hnot host rfl)]
    refine h.untouched hm₀ (fun host' hhost' => ?_) hback
    rw [hline] at hhost'
    exact nomatch hhost'

/-- The machine goes down or comes up on its own. -/
theorem followed_machine (h : Followed K cfg m₀ t s m) (haway : m.Away)
    (hboots : m'.boots = m.boots ∨ m'.boots = m.boots + 1 ∧ ¬ m'.Away) :
    Followed K cfg m₀ t s m' := by
  constructor
  · have := h.boots_le
    omega
  · intro p hp ht
    have := h.back p hp ht
    omega
  · intro host hhost ht
    have hrelies := h.relies host hhost ht
    cases hline : s.line with rw [hline] at hrelies
    | issue host' before =>
      obtain ⟨n, hbefore, hfirst, hn, hstep⟩ := hrelies
      refine ⟨n, hbefore, hfirst, by omega, fun hm₀ => ?_⟩
      -- a machine that was up is up until a reboot is sent to it
      obtain ⟨host'', hhost'', -⟩ := h.settled hm₀ haway
      rw [hline] at hhost''
      exact nomatch hhost''
    | poll host' before waited =>
      obtain ⟨n, hbefore, hfirst, hn, hstep⟩ := hrelies
      refine ⟨n, hbefore, hfirst, by omega, fun hm₀ => ?_⟩
      obtain heq | ⟨-, hup⟩ := hstep hm₀
      · rwa [heq] at hboots
      · exact absurd haway hup
    | next | before | refused | stopped | finished => trivial
  · exact fun hm₀ _ => h.settled hm₀ haway
  · intro hm₀ hnot _
    obtain ⟨host, hhost, ht⟩ := h.settled hm₀ haway
    exact absurd ht (hnot host hhost)

theorem followed_turn (h : Followed K cfg m₀ t w.script (w.fleet t)) (hturn : Turn K cfg w w') :
    Followed K cfg m₀ t w'.script (w'.fleet t) := by
  cases hturn with
  | finish hline _ => exact h.goto rfl (by simp [hline, Line.busy]) (by simp [World.goto, Line.current])
  | take hline _ => exact h.goto rfl (by simp [hline, Line.busy]) fun _ _ _ => trivial
  | unreachable hline => exact h.goto rfl (by simp [hline, Line.busy]) fun _ _ _ => trivial
  | found hline =>
    refine h.goto rfl (by simp [hline, Line.busy]) fun host' hhost' ht => ?_
    obtain rfl := Option.some.inj hhost'
    subst ht
    exact ⟨_, rfl, h.boots_le, Nat.le_refl _, fun _ => rfl⟩
  | @issued host before m hline hboots =>
    refine followed_issued h hline ?_ fun hne => Function.update_of_ne (Ne.symm hne) ..
    show (Function.update w.fleet (cfg.target host) m t).boots = _
    by_cases ht : t = cfg.target host
    · subst ht
      rwa [Function.update_self]
    · rw [Function.update_of_ne ht]
  | back hline _ hid =>
    refine followed_back h hline fun ht => ?_
    subst ht
    exact hid
  | waiting hline _ =>
    refine h.goto rfl (by simp [hline, Line.busy, World.goto]) fun host' hhost' ht => ?_
    have hrelies := h.relies host' (by rw [hline]; exact hhost') ht
    rw [hline] at hrelies
    exact hrelies
  | lost hline =>
    exact h.goto rfl (by simp [hline, Line.busy, World.goto]) fun _ _ _ => trivial

theorem followed_step (h : Followed K cfg m₀ t w.script (w.fleet t)) (hchange : Change K cfg w w') :
    Followed K cfg m₀ t w'.script (w'.fleet t) := by
  -- a machine that goes down or comes up is this one or another one
  have hmachine : ∀ {t' : String} {m' : Machine}, (w.fleet t').Away →
      (m'.boots = (w.fleet t').boots ∨ m'.boots = (w.fleet t').boots + 1 ∧ ¬ m'.Away) →
      Followed K cfg m₀ t w.script (Function.update w.fleet t' m' t) := by
    intro t' m' haway hboots
    by_cases ht : t = t'
    · subst ht
      rw [Function.update_self]
      exact followed_machine h haway hboots
    · rw [Function.update_of_ne ht]
      exact h
  cases hchange with
  | turn hturn => exact followed_turn h hturn
  | goesDown hpower => exact hmachine (by simp [Machine.Away, hpower]) (.inl rfl)
  | comesUp hpower => exact hmachine (by simp [Machine.Away, hpower]) (.inr ⟨rfl, by simp [Machine.Away]⟩)

end Events

variable {K : Kernels} {cfg : Settings} {args : List String} {fleet : String → Machine}
  {events : List Event} {w : World}

theorem followed_start (t : String) : Followed K cfg (fleet t) t (start args fleet).script
    ((start args fleet).fleet t) := by
  have hstart : (start args fleet).fleet = fleet ∧ (start args fleet).script.back = [] ∧
      (start args fleet).script.line.current = none := by
    rw [start]
    cases order args <;> exact ⟨rfl, rfl, rfl⟩
  obtain ⟨hfleet, hback, hcurrent⟩ := hstart
  rw [hfleet]
  constructor
  · exact Nat.le_refl _
  · rw [hback]
    exact fun p hp => nomatch hp
  · rw [hcurrent]
    exact fun host hhost => nomatch hhost
  · exact fun hm₀ haway => absurd haway hm₀
  · exact fun _ _ _ => rfl

theorem followed_of_happens (h : happens (happen K cfg) (start args fleet) events = some w)
    (t : String) : Followed K cfg (fleet t) t w.script (w.fleet t) :=
  happens_keeps (I := fun w => Followed K cfg (fleet t) t w.script (w.fleet t))
    (fun hw hstep => followed_step hw (change_of_happen hstep)) (followed_start t) h

/-- Of the machines that were up when the run began, no two are away at a time, in any order of
events; and when the run has ended well, none of them is. -/
theorem one_host_away (h : happens (happen K cfg) (start args fleet) events = some w) :
    (∀ t t', ¬ (fleet t).Away → ¬ (fleet t').Away → (w.fleet t).Away → (w.fleet t').Away → t = t') ∧
    (w.script.status = some 0 → ∀ t, ¬ (fleet t).Away → ¬ (w.fleet t).Away) := by
  constructor
  · intro t t' hup hup' haway haway'
    obtain ⟨host, hhost, rfl⟩ := (followed_of_happens h t).settled hup haway
    obtain ⟨host', hhost', rfl⟩ := (followed_of_happens h t').settled hup' haway'
    rw [Option.some.inj (hhost.symm.trans hhost')]
  · intro hstatus t hup haway
    obtain ⟨host, hhost, -⟩ := (followed_of_happens h t).settled hup haway
    cases hline : w.script.line with rw [hline] at hhost
    | poll host' before waited => simp [Script.status, hline] at hstatus
    | stopped host' => simp [Script.status, hline] at hstatus
    | _ => exact nomatch hhost

/-! ### The exit status -/

/-- The hosts of the run: those that are back, the one that the script is at, and those to come. -/
def Ordered (hosts : List String) (w : World) : Prop :=
  hosts = w.script.back.map Prod.fst ++ w.script.line.current.toList ++ w.script.rest ∧
    (w.script.line = .finished → w.script.rest = []) ∧ ∀ host, w.script.line ≠ .refused host

theorem ordered_turn {hosts : List String} {w w' : World} (h : Ordered hosts w)
    (hturn : Turn K cfg w w') : Ordered hosts w' := by
  obtain ⟨hhosts, -, -⟩ := h
  cases hturn with
  | finish hline hrest =>
    refine ⟨?_, fun _ => hrest, fun host h => nomatch h⟩
    rw [hhosts, hline]
    rfl
  | take hline hrest =>
    refine ⟨?_, (fun h => nomatch h), fun host h => nomatch h⟩
    rw [hhosts, hline, hrest]
    simp [Line.current]
  | back hline _ _ =>
    refine ⟨?_, (fun h => nomatch h), fun host h => nomatch h⟩
    rw [hhosts, hline]
    simp [Line.current]
  | unreachable hline | found hline | issued hline _ | waiting hline _ | lost hline =>
    refine ⟨?_, (fun h => nomatch h), fun host h => nomatch h⟩
    rw [hhosts, hline]
    rfl

theorem ordered_step {hosts : List String} {w w' : World} (h : Ordered hosts w)
    (hchange : Change K cfg w w') : Ordered hosts w' := by
  cases hchange with
  | turn hturn => exact ordered_turn h hturn
  | goesDown _ => exact h
  | comesUp _ => exact h

theorem ordered_of_happens {hosts : List String} (horder : order args = .ok hosts)
    (h : happens (happen K cfg) (start args fleet) events = some w) : Ordered hosts w := by
  refine happens_keeps (fun hw hstep => ordered_step hw (change_of_happen hstep)) ?_ h
  rw [start, horder]
  exact ⟨rfl, (fun h => nomatch h), fun host h => nomatch h⟩

/-- A run that exits with 0 has rebooted every host that it was asked for.  One that stops at a host
has rebooted those before it, and has touched no machine of the others. -/
theorem reboots_told {hosts : List String} (horder : order args = .ok hosts)
    (h : happens (happen K cfg) (start args fleet) events = some w) :
    (w.script.status = some 0 →
      ∀ host ∈ hosts, (fleet (cfg.target host)).boots < (w.fleet (cfg.target host)).boots) ∧
    (w.script.status = some 1 → ∃ past host rest, hosts = past ++ host :: rest ∧
      (∀ host' ∈ past, (fleet (cfg.target host')).boots < (w.fleet (cfg.target host')).boots) ∧
      ∀ t, ¬ (fleet t).Away → (∀ host' ∈ past ++ [host], cfg.target host' ≠ t) →
        w.fleet t = fleet t) := by
  obtain ⟨hhosts, hfinished, hrefused⟩ := ordered_of_happens horder h
  have hback : ∀ host ∈ w.script.back.map Prod.fst,
      (fleet (cfg.target host)).boots < (w.fleet (cfg.target host)).boots := by
    intro host hhost
    obtain ⟨p, hp, rfl⟩ := List.mem_map.mp hhost
    exact (followed_of_happens h _).back p hp rfl
  constructor
  · intro hstatus
    cases hline : w.script.line with
    | finished =>
      rw [hline, hfinished hline] at hhosts
      simpa [hhosts, Line.current] using hback
    | _ => simp [Script.status, hline] at hstatus
  · intro hstatus
    cases hline : w.script.line with
    | stopped host =>
      refine ⟨w.script.back.map Prod.fst, host, w.script.rest, ?_, hback, fun t hup hnot => ?_⟩
      · rw [hhosts, hline]
        simp [Line.current]
      · refine (followed_of_happens h t).untouched hup (fun host' hhost' => ?_) fun p hp => ?_
        · rw [hline] at hhost'
          obtain rfl := Option.some.inj hhost'
          exact hnot host (by simp)
        · exact hnot p.1 (List.mem_append_left _ (List.mem_map_of_mem hp))
    | refused host => exact absurd hline (hrefused host)
    | _ => simp [Script.status, hline] at hstatus

/-! ### The end of a run -/

/-- The polls that are left after some seconds. -/
def Settings.polls (cfg : Settings) (waited : ℕ) : ℕ :=
  (cfg.timeout - waited + (cfg.interval - 1)) / cfg.interval

/-- The lines that the script has still to come to for a host. -/
def Line.left (cfg : Settings) : Line → ℕ
  | .next => 1
  | .before _ => cfg.polls 0 + 4
  | .issue _ _ => cfg.polls 0 + 3
  | .poll _ _ waited => cfg.polls waited + 2
  | .refused _ | .stopped _ | .finished => 0

def World.left (cfg : Settings) (w : World) : ℕ :=
  w.script.line.left cfg + w.script.rest.length * (cfg.polls 0 + 5)

theorem polls_succ (hinterval : 0 < cfg.interval) {waited : ℕ} (h : waited < cfg.timeout) :
    cfg.polls (waited + cfg.interval) + 1 ≤ cfg.polls waited := by
  rw [Settings.polls, Settings.polls]
  by_cases hlast : cfg.timeout ≤ waited + cfg.interval
  · have hnone : (cfg.timeout - (waited + cfg.interval) + (cfg.interval - 1)) / cfg.interval = 0 :=
      Nat.div_eq_of_lt (by omega)
    rw [hnone]
    exact Nat.div_pos (by omega) hinterval
  · rw [← Nat.add_div_right _ hinterval]
    exact Nat.div_le_div_right (by omega)

theorem left_of_turn (hinterval : 0 < cfg.interval) {w w' : World} (hturn : Turn K cfg w w') :
    w'.left cfg + 1 ≤ w.left cfg := by
  cases hturn with
  | waiting hline hwaited =>
    have hpolls := polls_succ hinterval hwaited
    simp only [World.left, World.goto, hline, Line.left]
    omega
  | take hline hrest =>
    simp only [World.left, hline, hrest, Line.left, List.length_cons, Nat.succ_mul]
    omega
  | finish hline _ | unreachable hline | found hline | issued hline _ | back hline _ _ | lost hline =>
    simp only [World.left, World.goto, hline, Line.left]
    omega

def Event.isLine : Event → Bool
  | .line _ => true
  | _ => false

/-- A run comes to a bounded number of lines, whatever the hosts do; until it has exited, its next
line can be done. -/
theorem reboots_end (hinterval : 0 < cfg.interval)
    (h : happens (happen K cfg) (start args fleet) events = some w) :
    events.countP Event.isLine ≤ 1 + (order args).toOption.elim 0 List.length * (cfg.polls 0 + 5) ∧
    (w.script.status = none → ∀ reached, (happen K cfg w (.line reached)).isSome) := by
  constructor
  · have hbound : events.countP Event.isLine + w.left cfg ≤ (start args fleet).left cfg := by
      refine countP_add_le (fun {w e w'} hstep => ?_) h
      cases e with
      | line reached => exact left_of_turn hinterval (turn_of_work hstep)
      | goesDown t | comesUp t =>
        -- the script stays where it is
        rw [happen] at hstep
        split_ifs at hstep
        obtain rfl := Option.some.inj hstep
        exact Nat.le_refl _
    have hstart : (start args fleet).left cfg ≤
        1 + (order args).toOption.elim 0 List.length * (cfg.polls 0 + 5) := by
      rw [start]
      cases order args <;> simp [World.left, Line.left, Except.toOption]
    omega
  · intro hstatus reached
    rw [happen, work]
    cases hline : w.script.line with
    | next => cases w.script.rest <;> rfl
    | before host => rfl
    | issue host before => rfl
    | poll host before waited =>
      dsimp only
      split_ifs <;> rfl
    | _ => simp [Script.status, hline] at hstatus

/-! ### A run -/

/-- Ids of growing length. -/
def tally : Kernels where
  bootId _ n := String.ofList (List.replicate (n + 1) 'b')
  nonempty _ n h := by simpa using congrArg String.toList h
  fresh _ m n h := by simpa using congrArg (List.length ∘ String.toList) h

def allUp : String → Machine := fun _ => ⟨1, .up⟩

/-- The script comes to a host, which goes down and comes up, and is polled before, meanwhile and
after. -/
def rebootOf (t : String) : List Event :=
  [.line true, .line true, .line true, .line true, .goesDown t, .line true, .comesUp t, .line true]

def twoReboots : List Event :=
  rebootOf "krg-admin@waiter.ucsd.edu" ++ rebootOf "krg-admin@krg-nat.ucsd.edu" ++ [.line true]

theorem two_hosts : ∃ w, happens (happen tally {}) (start ["waiter, ", "krg-nat"] allUp) twoReboots =
    some w ∧ w.script.status = some 0 := by
  have hended : (happens (happen tally {}) (start ["waiter, ", "krg-nat"] allUp) twoReboots).any
      (fun w => w.script.status = some 0) = true := by decide
  cases hrun : happens (happen tally {}) (start ["waiter, ", "krg-nat"] allUp) twoReboots with
  | none =>
    rw [hrun] at hended
    exact nomatch hended
  | some w =>
    rw [hrun] at hended
    exact ⟨w, rfl, of_decide_eq_true hended⟩

theorem one_host_away_twice : ∃ w,
    happens (happen tally {}) (start ["waiter, ", "krg-nat"] allUp) twoReboots = some w ∧
    (∀ t t', ¬ (allUp t).Away → ¬ (allUp t').Away → (w.fleet t).Away → (w.fleet t').Away → t = t') ∧
    (w.script.status = some 0 → ∀ t, ¬ (allUp t).Away → ¬ (w.fleet t).Away) := by
  obtain ⟨w, hw, -⟩ := two_hosts
  exact ⟨w, hw, one_host_away hw⟩

theorem reboots_told_twice : ∃ w,
    happens (happen tally {}) (start ["waiter, ", "krg-nat"] allUp) twoReboots = some w ∧
    ∀ host ∈ ["waiter", "krg-nat"], 1 < (w.fleet (Settings.target {} host)).boots := by
  obtain ⟨w, hw, hstatus⟩ := two_hosts
  have horder : order ["waiter, ", "krg-nat"] = .ok ["waiter", "krg-nat"] := by
    rw [order, show requested ["waiter, ", "krg-nat"] = ["waiter", "krg-nat"] by decide]
    rfl
  exact ⟨w, hw, (reboots_told horder hw).1 hstatus⟩

theorem reboots_end_twice : twoReboots.countP Event.isLine ≤
    1 + (order ["waiter, ", "krg-nat"]).toOption.elim 0 List.length * (Settings.polls {} 0 + 5) := by
  obtain ⟨w, hw, -⟩ := two_hosts
  exact (reboots_end (by decide) hw).1

end FleetReboot
