/-
The VPN privileges: `apply_vpn.py privilege`.

VPN Server admits local accounts to every protocol until they are denied.  The command lists the
accounts of the box, compares the three privileges of each with what is wanted, and where one
differs writes those of every account that it has listed.  It asks for two hundred accounts.

* `Account`, `Box`, `load`, `store` — the accounts, a listing of them, and what `apply` does;
* `cmd_privilege` — the command;
* `privilege_cases` — how a run that succeeds ends;
* `privileges_exact_iff` — when every account has what is intended for it, and a second run has
  nothing to do.
-/
import KrgInfra.JsonText
import KrgInfra.VpnConfig
import Mathlib.Data.List.Sort

namespace VpnPrivilege

open Json
open ApplyVpn (Outcome)

/-! ### The box -/

/-- A local account, as `load` lists it: a privilege that it does not report is `null`. -/
structure Account where
  username : String
  enable_ovpn : Json
  enable_l2tp : Json
  enable_pptp : Json

/-- The privileges of an account, as `apply` takes them. -/
structure Priv where
  name : String
  enable_pptp : Bool
  enable_l2tp : Bool
  enable_ovpn : Bool

/-- `load`: at most `limit` accounts. -/
def load (accounts : List Account) (start limit : ℕ) : List Account :=
  (accounts.drop start).take limit

/-- An account after `apply`. -/
def stored_priv (priv : List Priv) (it : Account) : Account :=
  match priv.find? fun p => p.name = it.username with
  | none => it
  | some p => ⟨it.username, .bool p.enable_ovpn, .bool p.enable_l2tp, .bool p.enable_pptp⟩

/-- The local accounts of a box. -/
structure Box where
  accounts : List Account
  nodup : (accounts.map Account.username).Nodup

theorem username_stored_priv (priv : List Priv) (it : Account) :
    (stored_priv priv it).username = it.username := by
  unfold stored_priv
  split
  · rfl
  · rfl

/-- `apply`: the accounts that are named have what is sent for them. -/
def Box.store (priv : List Priv) (box : Box) : Box where
  accounts := box.accounts.map (stored_priv priv)
  nodup := by
    have hnames : (box.accounts.map (stored_priv priv)).map Account.username =
        box.accounts.map Account.username := by
      rw [List.map_map]
      exact List.map_congr_left fun it _ => username_stored_priv priv it
    rw [hnames]
    exact box.nodup

/-! ### The command -/

/-- The `success` of an answer; `raised` where there is none. -/
inductive Answer where
  | raised
  | failed
  | ok
  deriving DecidableEq

structure PrivEnv where
  load : Answer := .ok
  apply : Answer := .ok

/-- `value in deny` -/
def inList (value : String) (deny : List Json) : Bool := deny.any fun item => pyEq item (.str value)

/-- `deny_all or user in deny` -/
def locked (deny : List Json) (user : String) : Bool := inList "all" deny || inList user deny

def want (deny : List Json) (it : Account) : Priv where
  name := it.username
  enable_pptp := false
  enable_l2tp := false
  enable_ovpn := !locked deny it.username

/-- The privileges of an account that are not as wanted. -/
def account_drift (deny : List Json) (it : Account) : List String :=
  [("enable_ovpn", truthy it.enable_ovpn, (want deny it).enable_ovpn),
    ("enable_l2tp", truthy it.enable_l2tp, (want deny it).enable_l2tp),
    ("enable_pptp", truthy it.enable_pptp, (want deny it).enable_pptp)].filterMap
      fun (key, live, wanted) => if live ≠ wanted then some (it.username ++ "." ++ key) else none

def priv_drift (deny : List Json) (items : List Account) : List String :=
  items.flatMap (account_drift deny)

/-- `json.loads(a.deny_local) if a.deny_local else []`; `none` where that raises or is no list. -/
def denyList (k : Scalars) (deny_local : String) : Option (List Json) :=
  if deny_local = "" then some []
  else
    match JsonText.loads k deny_local.toList with
    | some (.arr deny) => some deny
    | _ => none

/-- A run: how it ends, and the accounts after it. -/
structure PrivRun where
  outcome : Outcome
  box : Box

/-- The exit status of the script. -/
def PrivRun.status (run : PrivRun) : ℕ :=
  match run.outcome with
  | .raised => 1
  | .fail => 1
  | .no_change => 0
  | .would_change _ => 0
  | .changed _ => 0

/-- The end of the command, where there is drift. -/
def apply_priv (apply : Answer) (priv : List Priv) (drift : List String) (box : Box) : PrivRun :=
  match apply with
  | .raised => ⟨.raised, box⟩
  | .failed => ⟨.fail, box⟩
  | .ok => ⟨.changed (drift.insertionSort (· ≤ ·)), box.store priv⟩

def cmd_privilege (k : Scalars) (deny_local : String) (check : Bool) (env : PrivEnv) (box : Box) :
    PrivRun :=
  match denyList k deny_local, env.load with
  | none, _ => ⟨.fail, box⟩
  | some _, .raised => ⟨.raised, box⟩
  | some _, .failed => ⟨.fail, box⟩
  | some deny, .ok =>
    let items := load box.accounts 0 200
    if items = [] then ⟨.fail, box⟩
    else
      let drift := priv_drift deny items
      if drift = [] then ⟨.no_change, box⟩
      else if check then ⟨.would_change (drift.insertionSort (· ≤ ·)), box⟩
      else apply_priv env.apply (items.map (want deny)) drift box

/-! ### Accounts that are as intended -/

/-- An account is denied by its name, or with all of them. -/
def Denied (deny : List Json) (it : Account) : Prop :=
  Json.str "all" ∈ deny ∨ Json.str it.username ∈ deny

/-- The account holds the privilege of OpenVPN unless it is denied, and no other one. -/
def Intended (deny : List Json) (it : Account) : Prop :=
  (truthy it.enable_ovpn = true ↔ ¬ Denied deny it) ∧ truthy it.enable_l2tp = false ∧
    truthy it.enable_pptp = false

theorem inList_iff {value : String} {deny : List Json} :
    inList value deny = true ↔ Json.str value ∈ deny := by
  unfold inList
  rw [List.any_eq_true]
  constructor
  · rintro ⟨item, hmem, heq⟩
    exact pyEq_str.mp heq ▸ hmem
  · exact fun hmem => ⟨_, hmem, pyEq_refl _⟩

theorem locked_iff {deny : List Json} {it : Account} :
    locked deny it.username = true ↔ Denied deny it := by
  rw [locked, Bool.or_eq_true, inList_iff, inList_iff, Denied]

/-- There is no drift of an account exactly when it is as intended. -/
theorem account_drift_eq_nil {deny : List Json} {it : Account} :
    account_drift deny it = [] ↔ Intended deny it := by
  have hlocked : truthy it.enable_ovpn = !locked deny it.username ↔
      (truthy it.enable_ovpn = true ↔ ¬ Denied deny it) := by
    rw [← locked_iff]
    cases truthy it.enable_ovpn <;> cases locked deny it.username <;> simp
  rw [Intended, ← hlocked]
  simp [account_drift, want, List.filterMap_eq_nil_iff]

theorem priv_drift_eq_nil {deny : List Json} {items : List Account} :
    priv_drift deny items = [] ↔ ∀ it ∈ items, Intended deny it := by
  rw [priv_drift, List.flatMap_eq_nil_iff]
  exact forall₂_congr fun it _ => account_drift_eq_nil

/-- An account that is sent has what is wanted. -/
theorem intended_stored {deny : List Json} {items : List Account} {it : Account}
    (hmem : it ∈ items) : Intended deny (stored_priv (items.map (want deny)) it) := by
  unfold stored_priv
  cases hfind : (items.map (want deny)).find? fun p => p.name = it.username with
  | none =>
    have hnot := List.find?_eq_none.mp hfind _ (List.mem_map_of_mem hmem)
    exact absurd (decide_eq_true rfl) hnot
  | some p =>
    have hname : p.name = it.username := by simpa using List.find?_some hfind
    obtain ⟨other, -, rfl⟩ := List.mem_map.mp (List.mem_of_find?_eq_some hfind)
    replace hname : other.username = it.username := hname
    refine ⟨?_, rfl, rfl⟩
    show (!locked deny other.username) = true ↔ ¬ Denied deny it
    rw [hname, Bool.not_eq_true', ← Bool.not_eq_true, locked_iff]

/-- An account that is not sent stays as it is. -/
theorem stored_priv_of_not_mem {deny : List Json} {items : List Account} {it : Account}
    (h : it.username ∉ items.map Account.username) :
    stored_priv (items.map (want deny)) it = it := by
  have hfind : ((items.map (want deny)).find? fun p => p.name = it.username) = none := by
    rw [List.find?_eq_none]
    intro p hp
    obtain ⟨other, hother, rfl⟩ := List.mem_map.mp hp
    have hne : other.username ≠ it.username := fun heq => h (heq ▸ List.mem_map_of_mem hother)
    exact fun heq => hne (of_decide_eq_true heq)
  rw [stored_priv, hfind]

/-- The accounts that the command writes: those of the listing. -/
def priv_sent (deny : List Json) (box : Box) : List Priv :=
  (load box.accounts 0 200).map (want deny)

/-- The listing is the first accounts of the box. -/
theorem load_eq_take (accounts : List Account) (limit : ℕ) :
    load accounts 0 limit = accounts.take limit := rfl

theorem load_store (priv : List Priv) (box : Box) (limit : ℕ) :
    load (box.store priv).accounts 0 limit =
      (load box.accounts 0 limit).map (stored_priv priv) := by
  rw [load_eq_take, load_eq_take, List.map_take]
  rfl

/-- An account beyond the listing is not sent. -/
theorem stored_priv_of_beyond {deny : List Json} {box : Box} {it : Account}
    (hmem : it ∈ box.accounts.drop 200) : stored_priv (priv_sent deny box) it = it := by
  refine stored_priv_of_not_mem fun hname => ?_
  have hnodup := box.nodup
  rw [← List.take_append_drop 200 box.accounts, List.map_append] at hnodup
  exact List.disjoint_of_nodup_append hnodup hname (List.mem_map_of_mem hmem)

/-! ### Runs -/

/-- **The command.**  A run that succeeds has found nothing to change, or has stored what is
wanted for the accounts that it listed. -/
theorem privilege_cases {k : Scalars} {deny_local : String} {env : PrivEnv} {box : Box}
    (h : (cmd_privilege k deny_local false env box).status = 0) :
    ∃ deny, denyList k deny_local = some deny ∧ load box.accounts 0 200 ≠ [] ∧
      (cmd_privilege k deny_local false env box = ⟨.no_change, box⟩ ∧
          (∀ it ∈ load box.accounts 0 200, Intended deny it) ∨
        ∃ drift, cmd_privilege k deny_local false env box =
          ⟨.changed drift, box.store (priv_sent deny box)⟩) := by
  unfold cmd_privilege at h ⊢
  cases hdeny : denyList k deny_local with
  | none =>
    rw [hdeny] at h
    exact absurd h Nat.one_ne_zero
  | some deny =>
    rw [hdeny] at h
    cases hload : env.load with
    | raised =>
      rw [hload] at h
      exact absurd h Nat.one_ne_zero
    | failed =>
      rw [hload] at h
      exact absurd h Nat.one_ne_zero
    | ok =>
      rw [hload] at h
      dsimp only at h ⊢
      by_cases hitems : load box.accounts 0 200 = []
      · rw [if_pos hitems] at h
        exact absurd h Nat.one_ne_zero
      · rw [if_neg hitems] at h ⊢
        refine ⟨deny, rfl, hitems, ?_⟩
        by_cases hdrift : priv_drift deny (load box.accounts 0 200) = []
        · rw [if_pos hdrift]
          exact .inl ⟨rfl, priv_drift_eq_nil.mp hdrift⟩
        · rw [if_neg hdrift, if_neg Bool.false_ne_true] at h ⊢
          cases happly : env.apply with
          | raised =>
            rw [happly] at h
            exact absurd h Nat.one_ne_zero
          | failed =>
            rw [happly] at h
            exact absurd h Nat.one_ne_zero
          | ok => exact .inr ⟨_, rfl⟩

/-- A run that is answered succeeds, if there is an account. -/
theorem privilege_succeeds {k : Scalars} {deny_local : String} {deny : List Json} {box : Box}
    (hdeny : denyList k deny_local = some deny) (hitems : load box.accounts 0 200 ≠ []) :
    (cmd_privilege k deny_local false {} box).status = 0 := by
  unfold cmd_privilege
  rw [hdeny]
  dsimp only
  rw [if_neg hitems]
  by_cases hdrift : priv_drift deny (load box.accounts 0 200) = []
  · rw [if_pos hdrift]
    rfl
  · rw [if_neg hdrift, if_neg Bool.false_ne_true]
    rfl

/-- A run that lists accounts as they are intended has nothing to do. -/
theorem privilege_no_change {k : Scalars} {deny_local : String} {deny : List Json} {env : PrivEnv}
    {box : Box} (hdeny : denyList k deny_local = some deny) (hload : env.load = .ok)
    (hitems : load box.accounts 0 200 ≠ [])
    (hintended : ∀ it ∈ load box.accounts 0 200, Intended deny it) :
    cmd_privilege k deny_local false env box = ⟨.no_change, box⟩ := by
  unfold cmd_privilege
  rw [hdeny, hload]
  dsimp only
  rw [if_neg hitems, if_pos (priv_drift_eq_nil.mpr hintended)]

/-- After a run that succeeds every account has what is intended for it, and a second run that
can list the accounts reports no change. -/
def Exact (k : Scalars) (deny_local : String) (box : Box) : Prop :=
  ∀ env, (cmd_privilege k deny_local false env box).status = 0 →
    (∀ deny, denyList k deny_local = some deny →
      ∀ it ∈ (cmd_privilege k deny_local false env box).box.accounts, Intended deny it) ∧
    ∀ env', env'.load = .ok →
      (cmd_privilege k deny_local false env'
        (cmd_privilege k deny_local false env box).box).outcome = .no_change

/-- An account beyond the listing is after a run what it was before. -/
theorem beyond_kept {k : Scalars} {deny_local : String} {env : PrivEnv} {box : Box} {it : Account}
    (h : (cmd_privilege k deny_local false env box).status = 0)
    (hmem : it ∈ box.accounts.drop 200) :
    it ∈ (cmd_privilege k deny_local false env box).box.accounts := by
  obtain ⟨deny, -, -, ⟨hrun, -⟩ | ⟨drift, hrun⟩⟩ := privilege_cases h
  · rw [hrun]
    exact List.mem_of_mem_drop hmem
  · rw [hrun]
    exact List.mem_map.mpr ⟨it, List.mem_of_mem_drop hmem, stored_priv_of_beyond hmem⟩

/-- **Accounts beyond the listing** must be as intended already. -/
theorem intended_beyond_of_exact {k : Scalars} {deny_local : String} {deny : List Json} {box : Box}
    (hexact : Exact k deny_local box) (hdeny : denyList k deny_local = some deny) :
    ∀ it ∈ box.accounts.drop 200, Intended deny it := by
  intro it hmem
  have hitems : load box.accounts 0 200 ≠ [] := by
    intro hnil
    rw [load_eq_take, List.take_eq_nil_iff] at hnil
    rw [hnil.resolve_left (by decide)] at hmem
    exact absurd hmem List.not_mem_nil
  have hsucceeds := privilege_succeeds hdeny hitems
  exact (hexact {} hsucceeds).1 deny hdeny it (beyond_kept hsucceeds hmem)

/-- **The privileges of every account.**  The runs that succeed make them what is intended, and
leave a second run nothing to do, exactly when those beyond the first two hundred accounts have
nothing to be changed. -/
theorem privileges_exact_iff (k : Scalars) (deny_local : String) (box : Box) :
    Exact k deny_local box ↔
      ∀ deny, denyList k deny_local = some deny →
        ∀ it ∈ box.accounts.drop 200, Intended deny it := by
  constructor
  · exact fun hexact deny hdeny => intended_beyond_of_exact hexact hdeny
  · intro hbeyond env hsucceeds
    obtain ⟨deny, hdeny, hitems, ⟨hrun, hintended⟩ | ⟨drift, hrun⟩⟩ := privilege_cases hsucceeds
    · rw [hrun]
      refine ⟨fun deny' hdeny' it hmem => ?_, fun env' hload => ?_⟩
      · obtain rfl := Option.some_inj.mp (hdeny'.symm.trans hdeny)
        rw [← List.take_append_drop 200 box.accounts] at hmem
        rcases List.mem_append.mp hmem with hlisted | hnot
        · exact hintended it hlisted
        · exact hbeyond deny' hdeny it hnot
      · rw [privilege_no_change hdeny hload hitems hintended]
    · rw [hrun]
      refine ⟨fun deny' hdeny' it hmem => ?_, fun env' hload => ?_⟩
      · obtain rfl := Option.some_inj.mp (hdeny'.symm.trans hdeny)
        obtain ⟨it, hit, rfl⟩ := List.mem_map.mp hmem
        rw [← List.take_append_drop 200 box.accounts] at hit
        rcases List.mem_append.mp hit with hlisted | hnot
        · exact intended_stored hlisted
        · rw [stored_priv_of_beyond hnot]
          exact hbeyond deny' hdeny it hnot
      · have hstored : ∀ it ∈ load (box.store (priv_sent deny box)).accounts 0 200,
            Intended deny it := by
          rw [load_store]
          intro it hmem
          obtain ⟨it, hit, rfl⟩ := List.mem_map.mp hmem
          exact intended_stored hit
        have hitems' : load (box.store (priv_sent deny box)).accounts 0 200 ≠ [] := by
          rw [load_store]
          exact fun hnil => hitems (List.map_eq_nil_iff.mp hnil)
        rw [privilege_no_change hdeny hload hitems' hstored]

/-- A box with a user for each of some numbers, and VPN Server as it comes. -/
def crowd (n : ℕ) : Box where
  accounts := (List.range n).map fun i =>
    ⟨String.ofList (List.replicate i 'u'), .bool true, .bool false, .bool false⟩
  nodup := by
    rw [List.map_map]
    refine List.nodup_range.map fun i j hij => ?_
    have hlength := congrArg (fun name => name.toList.length) hij
    simpa using hlength

/-- A decoder for texts without escape sequences, numbers and constants. -/
def plain : Scalars := ⟨fun text => some (String.ofList text), fun _ => none⟩

/-- The last of two hundred and one users keeps OpenVPN, when all are denied it. -/
theorem last_user_admitted : ¬ Exact plain "[\"all\"]" (crowd 201) := by
  intro hexact
  have hdeny : denyList plain "[\"all\"]" = some [.str "all"] := rfl
  have hlast : ⟨String.ofList (List.replicate 200 'u'), .bool true, .bool false, .bool false⟩ ∈
      (crowd 201).accounts.drop 200 := by
    show _ ∈ ((List.range 201).map _).drop 200
    rw [List.range_succ, List.map_append, List.drop_left' (by rw [List.length_map, List.length_range])]
    exact List.mem_singleton.mpr rfl
  have hintended := intended_beyond_of_exact hexact hdeny _ hlast
  exact hintended.1.mp rfl (.inl (List.mem_singleton.mpr rfl))

end VpnPrivilege
