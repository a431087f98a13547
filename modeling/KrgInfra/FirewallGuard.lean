/-
apply_security: the anti-lockout guard of `firewall-profile`.

A block whose default is to drop lets in what its own allow rules and those of `global` let
in, as far as they are switched on.  The guard asks for an allow rule in some block, whichever
it is and whether it is switched on or not.

* `Covered` — every declared block that drops by default has an allow rule that applies;
* `GuardHolds` — what the guard is for, of one run;
* `PastGuard`, `locked_out_iff` — what gets past the guard;
* `guard_holds_iff` — a run keeps to it exactly if a target that gets past the guard is covered;
* `merged_keeps` — the adapters that are not declared;
* `disabled_rule_passes` — a target that gets past the guard with a rule that is switched off.
-/
import KrgInfra.FirewallRun
import KrgInfra.Raising

namespace ApplySecurity

/-! ### Which rules apply -/

/-- The block drops what no rule lets in. -/
def Drops (block : Json) : Prop :=
  ∃ members : Members, block = .obj members ∧ members.get "policy" = .str "drop"

/-- The rules of a block. -/
def ruleList : Json → List Json
  | .obj members =>
    match Members.get members "rules" with
    | .arr items => items
    | _ => []
  | _ => []

/-- An allow rule that is not switched off. -/
def enabled_allow (rule : Json) : Bool :=
  is_allow rule &&
    match rule with
    | .obj members =>
      match Members.get members "enable" with
      | .bool false => false
      | _ => true
    | _ => false

/-- An allow rule that is switched on applies to each declared adapter that drops by
default: it is in its block, or in that of `global`. -/
def Covered (desired target : Members) : Prop :=
  ∀ ad ∈ desired.names, Drops (target.get ad) →
    ∃ rule ∈ ruleList (target.get ad) ++ ruleList (target.get "global"), enabled_allow rule = true

/-- What the guard is for, of a run on the saved profile `current` that ends with `status`
and has sent the profiles `sets`. -/
structure GuardHolds (profileName : String) (desired current : Members) (status : ℕ)
    (sets : List Members) : Prop where
  covered : ∀ target ∈ sets, Covered desired target
  refused : drift_of current (merged profileName current desired) desired ≠ [] →
    ¬ Covered desired (merged profileName current desired) → status ≠ 0 ∧ sets = []
  kept : ∀ target ∈ sets, ∀ ad, ad ∉ desired.names → ad ≠ "name" →
    target.lookup ad = current.lookup ad

/-! ### The guard -/

/-- The adapters that are not declared stay as they are. -/
theorem merged_keeps {profileName ad : String} {current desired : Members}
    (h : desired.names.Nodup) (had : ad ∉ desired.names) (hname : ad ≠ "name") :
    (merged profileName current desired).lookup ad = current.lookup ad := by
  rw [merged, Members.lookup_update h, if_neg had, Members.lookup_set, if_neg hname]

/-- What the guard takes for a default that drops is one. -/
theorem default_drops_iff {block : Json} {drops : Bool} (h : default_drops block = .ok drops) :
    drops = true ↔ Drops block := by
  unfold default_drops at h
  by_cases htruthy : block.truthy = true
  · rw [if_pos htruthy] at h
    cases block with
    | obj members =>
      rw [← Except.ok.inj h, Json.pyEq_str]
      constructor
      · exact fun hp => ⟨members, rfl, hp⟩
      · rintro ⟨members', he, hp⟩
        rw [Json.obj.inj he]
        exact hp
    | null => exact nomatch h
    | bool b => exact nomatch h
    | int n => exact nomatch h
    | float q => exact nomatch h
    | str s => exact nomatch h
    | arr items => exact nomatch h
  · rw [if_neg htruthy] at h
    rw [← Except.ok.inj h]
    constructor
    · exact fun hf => absurd hf (by decide)
    · rintro ⟨members, rfl, hp⟩
      have hempty : members = [] := by simpa [Json.truthy] using htruthy
      rw [hempty] at hp
      exact nomatch hp

/-- A declared block that the guard can look at: an object, or one that counts as nothing. -/
def Formed (block : Json) : Prop := block.truthy = true → ∃ members : Members, block = .obj members

theorem default_drops_returns_iff {block : Json} :
    (∃ drops, default_drops block = .ok drops) ↔ Formed block := by
  unfold default_drops Formed
  by_cases htruthy : block.truthy = true
  · rw [if_pos htruthy]
    constructor
    · rintro ⟨drops, h⟩ -
      cases block with
      | obj members => exact ⟨members, rfl⟩
      | _ => exact nomatch h
    · intro h
      obtain ⟨members, rfl⟩ := h htruthy
      exact ⟨_, rfl⟩
  · rw [if_neg htruthy]
    exact ⟨fun _ h => absurd h htruthy, fun _ => ⟨false, rfl⟩⟩

/-- The guard looks at all declared blocks, or at none. -/
theorem drop_adapters_eq_ok {target : Members} {drops : List String} : ∀ {ads : List String},
    drop_adapters target ads = .ok drops →
      (∀ ad ∈ ads, Formed (target.get ad)) ∧
        (drops = [] ↔ ∀ ad ∈ ads, ¬ Drops (target.get ad)) := by
  intro ads
  induction ads generalizing drops with
  | nil =>
    intro h
    obtain rfl := Except.ok.inj h
    simp
  | cons ad ads ih =>
    intro h
    obtain ⟨first, hfirst, h⟩ := Raising.bind_eq_ok_iff.mp h
    obtain ⟨rest, hrest, h⟩ := Raising.bind_eq_ok_iff.mp h
    obtain ⟨hformed, hnil⟩ := ih hrest
    have hdrops := default_drops_iff hfirst
    refine ⟨List.forall_mem_cons.mpr ⟨default_drops_returns_iff.mp ⟨first, hfirst⟩, hformed⟩, ?_⟩
    rw [List.forall_mem_cons, ← hdrops, ← hnil, ← Except.ok.inj h]
    cases first <;> simp

theorem drop_adapters_returns {target : Members} : ∀ {ads : List String},
    (∀ ad ∈ ads, Formed (target.get ad)) → ∃ drops, drop_adapters target ads = .ok drops := by
  intro ads
  induction ads with
  | nil => exact fun _ => ⟨[], rfl⟩
  | cons ad ads ih =>
    intro h
    obtain ⟨hfirst, hads⟩ := List.forall_mem_cons.mp h
    obtain ⟨first, hfirst⟩ := default_drops_returns_iff.mpr hfirst
    obtain ⟨rest, hrest⟩ := ih hads
    refine ⟨if first then ad :: rest else rest, ?_⟩
    rw [drop_adapters, hfirst, hrest]
    rfl

/-- The guard finds an allow rule: in some block, whichever it is, that comes after blocks whose
rules it can go through. -/
def FindsAllow (target : Members) : Prop :=
  ∃ before ad block rest rules, target = before ++ (ad, block) :: rest ∧ ad ≠ "name" ∧
    (∀ other ∈ before, other.1 ≠ "name" → ∃ rules, rules_of other.2 = .ok rules) ∧
    rules_of block = .ok rules ∧ ∃ rule ∈ rules, is_allow rule = true

/-- A member that is not the place where it finds one. -/
theorem findsAllow_cons {ad : String} {block : Json} {target : Members}
    (hpassed : ad ≠ "name" → ∃ rules, rules_of block = .ok rules) (h : FindsAllow target) :
    FindsAllow ((ad, block) :: target) := by
  obtain ⟨before, ad', block', rest, rules, rfl, hname, hbefore, hrules⟩ := h
  exact ⟨(ad, block) :: before, ad', block', rest, rules, rfl, hname,
    List.forall_mem_cons.mpr ⟨hpassed, hbefore⟩, hrules⟩

theorem allow_anywhere_iff {target : Members} :
    allow_anywhere target = .ok true ↔ FindsAllow target := by
  induction target with
  | nil =>
    refine iff_of_false nofun ?_
    rintro ⟨before, ad, block, rest, rules, h, -⟩
    exact absurd h (by simp)
  | cons member target ih =>
    obtain ⟨ad, block⟩ := member
    rw [allow_anywhere]
    constructor
    · intro h
      split_ifs at h with hname
      · exact findsAllow_cons (fun hne => absurd hname hne) (ih.mp h)
      obtain ⟨rules, hrules, h⟩ := Raising.bind_eq_ok_iff.mp h
      split_ifs at h with hany
      · obtain ⟨rule, hrule⟩ := List.any_eq_true.mp hany
        exact ⟨[], ad, block, target, rules, rfl, hname, by simp, hrules, rule, hrule⟩
      · exact findsAllow_cons (fun _ => ⟨rules, hrules⟩) (ih.mp h)
    · rintro ⟨before, ad', block', rest, rules, heq, hname, hbefore, hrules, hallow⟩
      cases before with
      | nil =>
        obtain ⟨hmember, -⟩ := List.cons.inj heq
        obtain ⟨rfl, rfl⟩ := Prod.mk.inj hmember
        rw [if_neg hname, hrules, Raising.ok_bind, if_pos (List.any_eq_true.mpr hallow)]
        rfl
      | cons other before =>
        obtain ⟨rfl, rfl⟩ := List.cons.inj heq
        obtain ⟨hother, hbefore⟩ := List.forall_mem_cons.mp hbefore
        have hrest := ih.mpr ⟨before, ad', block', rest, rules, rfl, hname, hbefore, hrules, hallow⟩
        by_cases had : ad = "name"
        · rw [if_pos had, hrest]
        · obtain ⟨passed, hpassed⟩ := hother had
          rw [if_neg had, hpassed, Raising.ok_bind, hrest]
          split_ifs <;> rfl

/-- What gets past the guard: a target without a default that drops, or with an allow rule in
some block, and with declared blocks that it can look at. -/
structure PastGuard (target desired : Members) : Prop where
  formed : ∀ ad ∈ desired.names, Formed (target.get ad)
  allowed : (∃ ad ∈ desired.names, Drops (target.get ad)) → FindsAllow target

theorem locked_out_iff {target desired : Members} :
    locked_out target desired = .ok false ↔ PastGuard target desired := by
  constructor
  · intro h
    obtain ⟨drops, hdrops, h⟩ := Raising.bind_eq_ok_iff.mp h
    obtain ⟨hformed, hnil⟩ := drop_adapters_eq_ok hdrops
    refine ⟨hformed, fun ⟨ad, had, hdrop⟩ => ?_⟩
    rw [if_neg fun hno => hnil.mp hno ad had hdrop] at h
    obtain ⟨allow, hallow, h⟩ := Raising.bind_eq_ok_iff.mp h
    have htrue : allow = true := by simpa using Except.ok.inj h
    exact allow_anywhere_iff.mp (htrue ▸ hallow)
  · rintro ⟨hformed, hallowed⟩
    obtain ⟨drops, hdrops⟩ := drop_adapters_returns hformed
    have hnil := (drop_adapters_eq_ok hdrops).2
    rw [locked_out, hdrops, Raising.ok_bind]
    split_ifs with hempty
    · rfl
    · rw [hnil] at hempty
      push Not at hempty
      rw [allow_anywhere_iff.mpr (hallowed hempty)]
      rfl

/-- A run finds a difference where a declared block is not that of the target. -/
theorem drift_ne_nil_iff {current target desired : Members} : drift_of current target desired ≠ [] ↔
    ∃ ad ∈ desired.names, Json.pyEq (current.get ad) (target.get ad) = false := by
  rw [drift_of, ne_eq, List.filter_eq_nil_iff]
  push Not
  simp

/-! ### A run -/

/-- The arguments of a run with an object of declared adapters. -/
def Args.forMap (args : Args) (pairs : Members) : Args := { args with desired := some (.obj pairs) }

/-- The firewall before a run that is looked at. -/
def beforeRun (stored running : Members) : FirewallWorld := { stored := stored, running := running }

/-- The target that a run has sent, whatever became of it. -/
theorem PushEnds.sets_eq {env : FirewallEnv} {args : Args} {target : Members}
    {w w' : FirewallWorld} {rc : ℕ} (h : PushEnds env args target w rc w') :
    w'.sets = w.sets ++ [target] := by
  cases h with
  | unsaved => rfl
  | saved => rfl
  | activated => rfl
  | unactivated => rfl
  | notAsked => rfl

/-- **The guard.**  A run keeps to what the guard is for exactly if, where it can read the
profile, a declared block is to change and the target gets past the guard, the target is covered. -/
theorem guard_holds_iff (env : FirewallEnv) (args : Args) (pairs stored running : Members) :
    GuardHolds args.profileName (dictOf pairs) stored
        (runFirewall env (args.forMap pairs) (beforeRun stored running)).1
        (runFirewall env (args.forMap pairs) (beforeRun stored running)).2.sets ↔
      (args.password ≠ "" → Reads env →
        (∃ ad ∈ (dictOf pairs).names, Json.pyEq (stored.get ad)
          ((merged args.profileName stored (dictOf pairs)).get ad) = false) →
        PastGuard (merged args.profileName stored (dictOf pairs)) (dictOf pairs) →
          Covered (dictOf pairs) (merged args.profileName stored (dictOf pairs))) := by
  have hnodup := nodup_dictOf pairs
  rw [← drift_ne_nil_iff, ← locked_out_iff]
  by_cases hpassword : args.password = ""
  · obtain ⟨hstatus, hworld⟩ := run_invalid env (args.forMap pairs)
      (beforeRun stored running) (.inl hpassword)
    rw [hstatus, hworld]
    constructor
    · exact fun _ h => absurd hpassword h
    · intro _
      exact ⟨fun _ h => (nomatch h), fun _ _ => ⟨by decide, rfl⟩, fun _ h => (nomatch h)⟩
  have hends := run_ends env (args.forMap pairs) (beforeRun stored running) rfl hpassword
  generalize (runFirewall env (args.forMap pairs) (beforeRun stored running)).1 = rc at hends ⊢
  generalize (runFirewall env (args.forMap pairs) (beforeRun stored running)).2 = w' at hends ⊢
  -- only a run that is not under `--check` and comes past the guard sends something
  cases hends with
  | unread hno =>
    constructor
    · exact fun _ _ h => absurd h hno
    · intro _
      exact ⟨fun _ h => (nomatch h), fun _ _ => ⟨by decide, rfl⟩, fun _ h => (nomatch h)⟩
  | noChange _ hnone =>
    constructor
    · exact fun _ _ _ h => absurd hnone h
    · intro _
      exact ⟨fun _ h => (nomatch h), fun h => absurd hnone h, fun _ h => (nomatch h)⟩
  | refused _ _ hno =>
    constructor
    · exact fun _ _ _ _ h => absurd h hno
    · intro _
      exact ⟨fun _ h => (nomatch h), fun _ _ => ⟨by decide, rfl⟩, fun _ h => (nomatch h)⟩
  | checked hreads hdrift hguard =>
    constructor
    · intro h _ _ _ _
      by_contra hcovered
      exact (h.refused hdrift hcovered).1 rfl
    · intro h
      refine ⟨fun _ h => (nomatch h), fun _ hcovered => ?_, fun _ h => (nomatch h)⟩
      exact absurd (h hpassword hreads hdrift hguard) hcovered
  | pushed hreads hdrift hguard _ hpush =>
    have hsets : w'.sets = [merged args.profileName stored (dictOf pairs)] := hpush.sets_eq
    rw [hsets]
    constructor
    · exact fun h _ _ _ _ => h.covered _ (List.mem_singleton_self _)
    · intro h
      have hcovered := h hpassword hreads hdrift hguard
      refine ⟨?_, fun _ hno => absurd hcovered hno, ?_⟩
      · exact fun target ht => List.mem_singleton.mp ht ▸ hcovered
      · intro target ht ad had hname
        rw [List.mem_singleton.mp ht]
        exact merged_keeps hnodup had hname

/-! ### A rule that is switched off -/

/-- A profile whose only allow rule is switched off. -/
def off_rule : Members :=
  [("name", .str "default"),
    ("global", .obj [("policy", .str "none"),
      ("rules", .arr [.obj [("policy", .str "allow"), ("enable", .bool false)]])]),
    ("eth0", .obj [("policy", .str "allow"), ("rules", .arr [])])]

/-- `eth0` is to drop by default. -/
def drop_eth0 : Members := [("eth0", .obj [("policy", .str "drop"), ("rules", .arr [])])]

def apply_args : Args := ⟨"default", none, "p", true, false⟩

/-- The target is saved and activated, with status 0, and no rule lets anyone in at
`eth0`. -/
theorem disabled_rule_passes :
    ¬ GuardHolds apply_args.profileName (dictOf drop_eth0) off_rule
        (runFirewall {} (apply_args.forMap drop_eth0) (beforeRun off_rule off_rule)).1
        (runFirewall {} (apply_args.forMap drop_eth0) (beforeRun off_rule off_rule)).2.sets ∧
      (runFirewall {} (apply_args.forMap drop_eth0) (beforeRun off_rule off_rule)).1 = 0 ∧
      (runFirewall {} (apply_args.forMap drop_eth0) (beforeRun off_rule off_rule)).2.sets.length =
        1 := by
  have hstatus : (runFirewall {} (apply_args.forMap drop_eth0) (beforeRun off_rule off_rule)).1 = 0 := by
    decide +kernel
  refine ⟨fun h => ?_, hstatus, by decide +kernel⟩
  have hdrift : drift_of off_rule (merged "default" off_rule (dictOf drop_eth0)) (dictOf drop_eth0) ≠
      [] := by decide
  have huncovered : ¬ Covered (dictOf drop_eth0) (merged "default" off_rule (dictOf drop_eth0)) := by
    intro hcovered
    obtain ⟨rule, hrule, henabled⟩ := hcovered "eth0" (by decide) ⟨_, rfl, rfl⟩
    have hrules : ruleList ((merged "default" off_rule (dictOf drop_eth0)).get "eth0") ++
        ruleList ((merged "default" off_rule (dictOf drop_eth0)).get "global") =
          [.obj [("policy", .str "allow"), ("enable", .bool false)]] := rfl
    rw [hrules, List.mem_singleton] at hrule
    rw [hrule] at henabled
    exact absurd henabled (by decide)
  exact (h.refused hdrift huncovered).1 hstatus

end ApplySecurity
