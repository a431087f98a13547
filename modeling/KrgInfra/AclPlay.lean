/-
DSM share permissions: two plays of the `synology_acls` role.

`setuser` sets the lists of a share exactly, and `admin-grants` adds to them: where `acls.yml`
declares a share without the admin groups, each play removes them and adds them again.

* `sameNames_iff`, `desired_tiers_eq` — the comparison of the helper and of the detector;
* `setuser_spec`, `admin_spec` — what a successful command does to the lists;
* `Settled` — the specs for which the steps of a play do not work against each other;
* `stable_iff` — the permissions after a play are stable exactly for these;
* `admins_removed` — one share, one grant and one admin group.
-/
import KrgInfra.ShareAcls
import Mathlib.Data.List.Dedup

namespace ShareAcls

open Json

/-! ### Comparison -/

theorem sameNames_iff {desired : List Json} {current : List String} :
    sameNames desired current = true ↔ ∀ n, n ∈ desired ↔ ∃ c ∈ current, n = .str c := by
  rw [sameNames, Bool.and_eq_true, List.all_eq_true, List.all_eq_true]
  constructor
  · rintro ⟨hdesired, hcurrent⟩ n
    constructor
    · intro hn
      obtain ⟨c, hc, heq⟩ := List.any_eq_true.mp (hdesired n hn)
      exact ⟨c, hc, pyEq_str.mp heq⟩
    · rintro ⟨c, hc, rfl⟩
      obtain ⟨n, hn, heq⟩ := List.any_eq_true.mp (hcurrent c hc)
      exact pyEq_str.mp heq ▸ hn
  · intro h
    constructor
    · intro n hn
      obtain ⟨c, hc, rfl⟩ := (h n).mp hn
      exact List.any_eq_true.mpr ⟨c, hc, pyEq_refl _⟩
    · intro c hc
      exact List.any_eq_true.mpr ⟨.str c, (h _).mpr ⟨c, hc, rfl⟩, pyEq_refl _⟩

theorem principal_eq (g : Members) : Drift.principal g = principal g := by
  unfold Drift.principal principal
  cases g.lookup "group" with
  | none => rfl
  | some _ => rfl

theorem accessTier_eq (g : Members) : Drift.accessTier g = accessTier g := by
  unfold Drift.accessTier accessTier
  cases g.lookup "access" with
  | none =>
    show none = tierOf (lowered (.str ""))
    decide +kernel
  | some _ => rfl

/-- The helper and the detector read a grant alike. -/
theorem addGrant_eq (d : Desired) (g : Json) : Drift.addGrant d g = addGrant d g := by
  cases g with
  | obj members =>
    show (Drift.principal members).bind _ = (principal members).bind _
    rw [principal_eq, accessTier_eq]
  | null => rfl
  | bool _ => rfl
  | int _ => rfl
  | float _ => rfl
  | str _ => rfl
  | arr _ => rfl

theorem desired_tiers_eq (grants : Json) : Drift.desired_tiers grants = desired_tiers grants := by
  have hadd : Drift.addGrant = addGrant := funext fun d => funext fun g => addGrant_eq d g
  unfold Drift.desired_tiers desired_tiers
  rw [hadd]

/-- The declared principals of a list that are texts. -/
def declared (grants : Json) (t : Tier) : List String :=
  match desired_tiers grants with
  | none => []
  | some desired => (desired t).filterMap fun n => match n with | .str s => some s | _ => none

/-- The list is as declared. -/
def Same (grants : Json) (t : Tier) (current : List String) : Prop :=
  ∃ desired, desired_tiers grants = some desired ∧ sameNames (desired t) current = true

/-- Grants that name principals by texts. -/
def Texts (grants : Json) : Prop :=
  ∃ desired, desired_tiers grants = some desired ∧ ∀ t, ∀ n ∈ desired t, ∃ s, n = .str s

theorem mem_declared {grants : Json} {desired : Desired} (h : desired_tiers grants = some desired)
    {t : Tier} {name : String} : name ∈ declared grants t ↔ Json.str name ∈ desired t := by
  unfold declared
  rw [h]
  constructor
  · intro hname
    obtain ⟨n, hn, heq⟩ := List.mem_filterMap.mp hname
    cases n with
    | str s => exact Option.some_inj.mp heq ▸ hn
    | null => exact nomatch heq
    | bool _ => exact nomatch heq
    | int _ => exact nomatch heq
    | float _ => exact nomatch heq
    | arr _ => exact nomatch heq
    | obj _ => exact nomatch heq
  · exact fun hn => List.mem_filterMap.mpr ⟨_, hn, rfl⟩

/-- Two sets of texts are compared by their members. -/
theorem same_iff {grants : Json} (h : Texts grants) {t : Tier} {current : List String} :
    Same grants t current ↔ ∀ name, name ∈ declared grants t ↔ name ∈ current := by
  obtain ⟨desired, hdesired, htexts⟩ := h
  constructor
  · rintro ⟨desired', hdesired', hsame⟩ name
    rw [hdesired] at hdesired'
    obtain rfl := Option.some_inj.mp hdesired'
    rw [mem_declared hdesired, sameNames_iff.mp hsame]
    constructor
    · rintro ⟨c, hc, heq⟩
      exact Json.str.inj heq ▸ hc
    · exact fun hname => ⟨name, hname, rfl⟩
  · intro hnames
    refine ⟨desired, hdesired, sameNames_iff.mpr fun n => ⟨fun hn => ?_, ?_⟩⟩
    · obtain ⟨s, rfl⟩ := htexts t n hn
      exact ⟨s, (hnames s).mp ((mem_declared hdesired).mpr hn), rfl⟩
    · rintro ⟨c, hc, rfl⟩
      exact (mem_declared hdesired).mp ((hnames c).mpr hc)

/-! ### What DSM takes -/

theorem kept_of_mem_taken {dsm : Dsm} {text name : String} (h : name ∈ dsm.taken text) :
    dsm.kept name = true := (List.mem_filter.mp h).2

/-- Names that DSM knows are taken as they are. -/
theorem mem_taken_join {dsm : Dsm} {names : List String} (h : ∀ n ∈ names, dsm.kept n = true)
    {name : String} : name ∈ dsm.taken (join names) ↔ name ∈ names := by
  unfold Dsm.taken join
  rw [String.toList_ofList]
  cases names with
  | nil =>
    constructor
    · intro hname
      have hempty : name = "" := by simpa using (List.mem_filter.mp hname).1
      rw [hempty] at hname
      exact absurd (List.mem_filter.mp hname).2 (by rw [dsm.kept_ne_empty]; decide)
    · exact fun hname => nomatch hname
  | cons first names =>
    have hcomma : ∀ l ∈ (first :: names).map String.toList, ',' ∉ l := by
      intro l hl
      obtain ⟨n, hn, rfl⟩ := List.mem_map.mp hl
      exact dsm.kept_no_comma n (h n hn)
    rw [List.splitOn_intercalate ',' hcomma (List.cons_ne_nil _ _), List.map_map]
    have hid : (first :: names).map (String.ofList ∘ String.toList) = first :: names :=
      (List.map_congr_left fun n _ => String.ofList_toList).trans (List.map_id _)
    rw [hid, List.mem_filter]
    exact ⟨fun hname => hname.1, fun hname => ⟨hname, h name hname⟩⟩

theorem mem_sorted {names : List String} {name : String} : name ∈ sorted names ↔ name ∈ names :=
  List.mem_insertionSort _

/-- The calls of `setuser` set the lists that differ. -/
theorem runCalls_set {dsm : Dsm} {share : String} {text : Tier → String} (drift : List Tier) :
    ∀ {s s' : State} {done : List (Call × State)}, drift.Nodup →
      runCalls dsm (drift.map fun t => ⟨share, t, .set, text t⟩) s = some (done, s') →
      ∀ share' t, s' share' t =
        if share' = share ∧ t ∈ drift then dsm.taken (text t) else s share' t := by
  induction drift with
  | nil =>
    intro s s' done _ h share' t
    obtain ⟨_, rfl⟩ := Prod.mk.inj (Option.some_inj.mp h)
    rw [if_neg fun hmem => nomatch hmem.2]
  | cons first drift ih =>
    intro s s' done hnodup h share' t
    rw [List.nodup_cons] at hnodup
    rw [List.map_cons, runCalls] at h
    obtain ⟨s₁, hs₁, h⟩ := Option.bind_eq_some_iff.mp h
    obtain ⟨⟨calls, s₂⟩, hs₂, h⟩ := Option.bind_eq_some_iff.mp h
    obtain ⟨_, rfl⟩ := Prod.mk.inj (Option.some_inj.mp h)
    unfold setuser at hs₁
    split_ifs at hs₁
    obtain rfl := Option.some_inj.mp hs₁
    rw [ih hnodup.2 hs₂, State.put]
    by_cases hfirst : t = first
    · subst hfirst
      rw [if_neg fun hmem => hnodup.1 hmem.2]
      by_cases hshare : share' = share
      · rw [if_pos ⟨hshare, rfl⟩, if_pos ⟨hshare, List.mem_cons_self⟩]
      · rw [if_neg fun h => hshare h.1, if_neg fun h => hshare h.1]
    · have hmem : t ∈ first :: drift ↔ t ∈ drift :=
        ⟨fun h => (List.mem_cons.mp h).resolve_left hfirst, List.mem_cons_of_mem _⟩
      simp only [hmem, hfirst, and_false, if_false]

/-- The calls of `admin-grants` add to the read-write lists. -/
theorem runCalls_add {dsm : Dsm} {text : String → String} (shares : List String) :
    ∀ {s s' : State} {done : List (Call × State)}, shares.Nodup →
      runCalls dsm (shares.map fun share => ⟨share, .RW, .add, text share⟩) s = some (done, s') →
      ∀ share t, s' share t =
        if share ∈ shares ∧ t = .RW then s share .RW ++ dsm.taken (text share) else s share t := by
  induction shares with
  | nil =>
    intro s s' done _ h share t
    obtain ⟨_, rfl⟩ := Prod.mk.inj (Option.some_inj.mp h)
    rw [if_neg fun hmem => nomatch hmem.1]
  | cons first shares ih =>
    intro s s' done hnodup h share t
    rw [List.nodup_cons] at hnodup
    rw [List.map_cons, runCalls] at h
    obtain ⟨s₁, hs₁, h⟩ := Option.bind_eq_some_iff.mp h
    obtain ⟨⟨calls, s₂⟩, hs₂, h⟩ := Option.bind_eq_some_iff.mp h
    obtain ⟨_, rfl⟩ := Prod.mk.inj (Option.some_inj.mp h)
    unfold setuser at hs₁
    split_ifs at hs₁
    obtain rfl := Option.some_inj.mp hs₁
    rw [ih hnodup.2 hs₂, State.put, State.put]
    by_cases hfirst : share = first
    · subst hfirst
      rw [if_neg fun hmem => hnodup.1 hmem.1]
      by_cases ht : t = .RW
      · rw [if_pos ⟨rfl, ht⟩, if_pos ⟨List.mem_cons_self, ht⟩]
      · rw [if_neg fun h => ht h.2, if_neg fun h => ht h.2]
    · have hmem : share ∈ first :: shares ↔ share ∈ shares :=
        ⟨fun h => (List.mem_cons.mp h).resolve_left hfirst, List.mem_cons_of_mem _⟩
      simp only [hmem, hfirst, false_and, if_false]

/-! ### A command -/

theorem mem_tiers (t : Tier) : t ∈ tiers := by cases t <;> decide

theorem mem_drifted {desired : Desired} {current : Tiers} {drift : List Tier}
    (h : drifted desired current = some drift) {t : Tier} :
    t ∈ drift ↔ ¬ sameNames (desired t) (current t) = true := by
  unfold drifted at h
  dsimp only at h
  split_ifs at h
  rw [← Option.some_inj.mp h, List.mem_filter]
  simp [mem_tiers t]

theorem nodup_drifted {desired : Desired} {current : Tiers} {drift : List Tier}
    (h : drifted desired current = some drift) : drift.Nodup := by
  unfold drifted at h
  dsimp only at h
  split_ifs at h
  rw [← Option.some_inj.mp h]
  exact List.Nodup.filter _ (by decide)

theorem drifted_of_same {desired : Desired} {current : Tiers}
    (h : ∀ t, sameNames (desired t) (current t) = true) : drifted desired current = some [] := by
  have hnone : (tiers.filter fun t => !sameNames (desired t) (current t)) = [] :=
    List.filter_eq_nil_iff.mpr fun t _ => by simp [h t]
  unfold drifted
  rw [hnone]
  rfl

/-- The text of a `setuser` call. -/
def setText (grants : Json) (t : Tier) : String := join (sorted (declared grants t).dedup)

/-- What a successful `do_setuser` does. -/
structure SetuserSpec (dsm : Dsm) (share : String) (grants : Json) (s : State) (run : Run) :
    Prop where
  texts : Texts grants
  other : ∀ share' t, share' ≠ share → run.state share' t = s share' t
  same : ∀ t, Same grants t (s share t) → run.state share t = s share t
  set : ∀ t, ¬ Same grants t (s share t) → run.state share t = dsm.taken (setText grants t)
  quiet : run.changed = false → ∀ t, Same grants t (s share t)

theorem texts_eq {names : List Json} {l : List String} (h : texts names = some l) :
    (∀ n ∈ names, ∃ s, n = .str s) ∧
      l = names.filterMap fun n => match n with | .str s => some s | _ => none := by
  unfold texts at h
  induction names generalizing l with
  | nil =>
    obtain rfl := Option.some_inj.mp h
    exact ⟨fun _ hn => (nomatch hn), rfl⟩
  | cons first names ih =>
    rw [List.mapM_cons] at h
    obtain ⟨s, hs, h⟩ := Option.bind_eq_some_iff.mp h
    obtain ⟨rest, hrest, h⟩ := Option.bind_eq_some_iff.mp h
    obtain rfl := Option.some_inj.mp h
    obtain ⟨hall, rfl⟩ := ih hrest
    cases first with
    | str s' =>
      obtain rfl := Option.some_inj.mp hs
      refine ⟨fun n hn => ?_, rfl⟩
      obtain rfl | hn := List.mem_cons.mp hn
      · exact ⟨_, rfl⟩
      · exact hall n hn
    | null => exact nomatch hs
    | bool _ => exact nomatch hs
    | int _ => exact nomatch hs
    | float _ => exact nomatch hs
    | arr _ => exact nomatch hs
    | obj _ => exact nomatch hs

/-- The calls of a command are those of the lists that differ, with declared texts only. -/
theorem mapM_setCall {share : String} {grants : Json} {desired : Desired}
    (hdesired : desired_tiers grants = some desired) (drift : List Tier) :
    ∀ {calls : List Call}, drift.mapM (setCall share desired) = some calls →
      (∀ t ∈ drift, ∀ n ∈ desired t, ∃ s, n = .str s) ∧
        calls = drift.map fun t => ⟨share, t, .set, setText grants t⟩ := by
  induction drift with
  | nil =>
    intro calls h
    exact ⟨fun _ ht => (nomatch ht), (Option.some_inj.mp h).symm⟩
  | cons first drift ih =>
    intro calls h
    rw [List.mapM_cons] at h
    obtain ⟨c, hc, h⟩ := Option.bind_eq_some_iff.mp h
    obtain ⟨rest, hrest, h⟩ := Option.bind_eq_some_iff.mp h
    obtain rfl := Option.some_inj.mp h
    obtain ⟨hall, rfl⟩ := ih hrest
    obtain ⟨names, hnames, rfl⟩ := Option.map_eq_some_iff.mp hc
    obtain ⟨htexts, rfl⟩ := texts_eq hnames
    constructor
    · intro t ht
      obtain rfl | ht := List.mem_cons.mp ht
      · exact htexts
      · exact hall t ht
    · rw [List.map_cons, setText, declared, hdesired]

theorem setuser_spec {dsm : Dsm} {share : String} {grants : Json} {s : State} {run : Run}
    (h : do_setuser dsm share grants s = some run) : SetuserSpec dsm share grants s run := by
  unfold do_setuser at h
  obtain ⟨desired, hdesired, h⟩ := Option.bind_eq_some_iff.mp h
  obtain ⟨drift, hdrift, h⟩ := Option.bind_eq_some_iff.mp h
  have hsame : ∀ t, Same grants t (s share t) ↔ t ∉ drift := by
    intro t
    rw [mem_drifted hdrift, not_not]
    constructor
    · rintro ⟨desired', hdesired', hnames⟩
      rw [hdesired] at hdesired'
      exact Option.some_inj.mp hdesired' ▸ hnames
    · exact fun hnames => ⟨desired, hdesired, hnames⟩
  -- a list that does not differ has texts only
  have htexts : (∀ t ∈ drift, ∀ n ∈ desired t, ∃ s, n = .str s) → Texts grants := by
    refine fun hall => ⟨desired, hdesired, fun t n hn => ?_⟩
    by_cases ht : t ∈ drift
    · exact hall t ht n hn
    · rw [mem_drifted hdrift, not_not] at ht
      obtain ⟨c, _, rfl⟩ := (sameNames_iff.mp ht n).mp hn
      exact ⟨c, rfl⟩
  by_cases hempty : drift = []
  · rw [if_pos hempty] at h
    obtain rfl := Option.some_inj.mp h
    have hall : ∀ t, Same grants t (s share t) := fun t => (hsame t).mpr (by simp [hempty])
    exact ⟨htexts fun t ht => by simp [hempty] at ht, fun _ _ _ => rfl, fun _ _ => rfl,
      fun t ht => absurd (hall t) ht, fun _ => hall⟩
  · rw [if_neg hempty] at h
    obtain ⟨calls, hcalls, h⟩ := Option.bind_eq_some_iff.mp h
    obtain ⟨⟨done, s'⟩, hdone, h⟩ := Option.bind_eq_some_iff.mp h
    obtain rfl := Option.some_inj.mp h
    obtain ⟨hall, rfl⟩ := mapM_setCall hdesired drift hcalls
    have hstate := runCalls_set drift (nodup_drifted hdrift) hdone
    refine ⟨htexts hall, fun share' t hne => ?_, fun t ht => ?_, fun t ht => ?_,
      fun hchanged => nomatch hchanged⟩
    · exact (hstate share' t).trans (if_neg fun hc => hne hc.1)
    · exact (hstate share t).trans (if_neg fun hc => (hsame t).mp ht hc.2)
    · have ht : t ∈ drift := by_contra fun hc => ht ((hsame t).mpr hc)
      exact (hstate share t).trans (if_pos ⟨rfl, ht⟩)

/-- Where no list differs, nothing is called. -/
theorem do_setuser_same (dsm : Dsm) {share : String} {grants : Json} {s : State}
    (hvalid : ∃ desired, desired_tiers grants = some desired)
    (h : ∀ t, Same grants t (s share t)) :
    do_setuser dsm share grants s = some (Run.none s) := by
  obtain ⟨desired, hdesired⟩ := hvalid
  have hnames : ∀ t, sameNames (desired t) (s share t) = true := by
    intro t
    obtain ⟨desired', hdesired', hnames⟩ := h t
    rw [hdesired] at hdesired'
    exact Option.some_inj.mp hdesired' ▸ hnames
  unfold do_setuser
  rw [hdesired]
  show (drifted desired (s share)).bind _ = _
  rw [drifted_of_same hnames]
  rfl

/-- What a successful `do_admin_grants` does to the lists. -/
structure AdminSpec (dsm : Dsm) (shares admins : List String) (s : State) (run : Run) : Prop where
  other : ∀ share t, (share ∉ shares ∨ t ≠ .RW ∨ ∀ a ∈ admins, a ∈ s share .RW) →
    run.state share t = s share t
  add : ∀ share ∈ shares, run.state share .RW = s share .RW ∨
    run.state share .RW = s share .RW ++ dsm.taken (join (missing admins (s share .RW)))
  full : ∀ share ∈ shares, (∀ a ∈ admins, a ∈ s share .RW ∨ dsm.kept a = true) →
    ∀ a ∈ admins, a ∈ run.state share .RW

theorem mem_missing {admins current : List String} {name : String} :
    name ∈ missing admins current ↔ name ∈ admins ∧ name ∉ current := by
  rw [missing, mem_sorted, List.mem_filter, List.mem_dedup]
  simp

theorem missing_eq_nil {admins current : List String} :
    missing admins current = [] ↔ ∀ a ∈ admins, a ∈ current := by
  rw [List.eq_nil_iff_forall_not_mem]
  constructor
  · intro h a ha
    by_contra hc
    exact h a (mem_missing.mpr ⟨ha, hc⟩)
  · intro h a ha
    obtain ⟨hadmin, hcurrent⟩ := mem_missing.mp ha
    exact hcurrent (h a hadmin)

theorem admin_spec {dsm : Dsm} {shares admins : List String} {s : State} {run : Run}
    (h : do_admin_grants dsm shares admins s = some run) :
    AdminSpec dsm shares admins s run := by
  -- the shares that lack one of the principals
  generalize hper : ((sorted shares.dedup).filter fun share =>
    missing admins (s share .RW) ≠ []) = per_share
  have hmem : ∀ share, share ∈ per_share ↔
      share ∈ shares ∧ ¬ ∀ a ∈ admins, a ∈ s share .RW := by
    intro share
    rw [← hper, List.mem_filter, mem_sorted, List.mem_dedup, decide_eq_true_iff, ne_eq,
      missing_eq_nil]
  have hnodup : per_share.Nodup := by
    rw [← hper]
    refine List.Nodup.filter _ ?_
    exact (List.perm_insertionSort _ _).nodup_iff.mpr (List.nodup_dedup shares)
  unfold do_admin_grants at h
  rw [hper] at h
  by_cases hempty : per_share = []
  · simp only [if_pos hempty] at h
    obtain rfl := Option.some_inj.mp h
    refine ⟨fun _ _ _ => rfl, fun _ _ => .inl rfl, fun share hshare _ => ?_⟩
    by_contra hc
    have hin := (hmem share).mpr ⟨hshare, hc⟩
    rw [hempty] at hin
    exact nomatch hin
  · simp only [if_neg hempty] at h
    obtain ⟨⟨done, s'⟩, hdone, h⟩ := Option.bind_eq_some_iff.mp h
    obtain rfl := Option.some_inj.mp h
    have hstate := @runCalls_add dsm (fun share => join (missing admins (s share .RW))) per_share
      s s' done hnodup hdone
    refine ⟨fun share t hor => ?_, fun share hshare => ?_, fun share hshare hkept => ?_⟩
    · refine (hstate share t).trans (if_neg fun hc => ?_)
      obtain hor | hor | hor := hor
      · exact hor ((hmem share).mp hc.1).1
      · exact hor hc.2
      · exact ((hmem share).mp hc.1).2 hor
    · by_cases hin : share ∈ per_share
      · exact .inr ((hstate share .RW).trans (if_pos ⟨hin, rfl⟩))
      · exact .inl ((hstate share .RW).trans (if_neg fun hc => hin hc.1))
    · by_cases hin : share ∈ per_share
      · intro a ha
        show a ∈ s' share .RW
        rw [(hstate share .RW).trans (if_pos ⟨hin, rfl⟩), List.mem_append]
        by_cases hcurrent : a ∈ s share .RW
        · exact .inl hcurrent
        · refine .inr ((mem_taken_join fun n hn => ?_).mpr (mem_missing.mpr ⟨ha, hcurrent⟩))
          obtain ⟨hn, hmissing⟩ := mem_missing.mp hn
          exact (hkept n hn).resolve_left hmissing
      · show ∀ a ∈ admins, a ∈ s' share .RW
        rw [(hstate share .RW).trans (if_neg fun hc => hin hc.1)]
        by_contra hc
        exact hin ((hmem share).mpr ⟨hshare, hc⟩)

theorem do_admin_grants_quiet (dsm : Dsm) {shares admins : List String} {s : State}
    (h : ∀ share ∈ shares, ∀ a ∈ admins, a ∈ s share .RW) :
    do_admin_grants dsm shares admins s = some (Run.none s) := by
  have hnone : ((sorted shares.dedup).filter fun share => missing admins (s share .RW) ≠ []) = [] := by
    refine List.filter_eq_nil_iff.mpr fun share hshare => ?_
    rw [mem_sorted, List.mem_dedup] at hshare
    simpa using missing_eq_nil.mpr (h share hshare)
  unfold do_admin_grants
  rw [hnone]
  rfl

/-! ### The `setuser` step -/

variable {dsm : Dsm}

/-- Every entry of a successful step names principals by texts. -/
theorem texts_of_step (acls : List (String × Json)) : ∀ {s : State} {run : Run},
    setuserStep dsm acls s = some run → ∀ entry ∈ acls, Texts entry.2 := by
  induction acls with
  | nil => exact fun _ _ h => nomatch h
  | cons first acls ih =>
    intro s run h
    obtain ⟨r, hr, h⟩ := Option.bind_eq_some_iff.mp h
    obtain ⟨rest, hrest, _⟩ := Option.bind_eq_some_iff.mp h
    intro entry hentry
    obtain rfl | hentry := List.mem_cons.mp hentry
    · exact (setuser_spec hr).texts
    · exact ih hrest entry hentry

/-- Shares that are not declared are left alone. -/
theorem step_other (acls : List (String × Json)) : ∀ {s : State} {run : Run},
    setuserStep dsm acls s = some run → ∀ share t, (∀ entry ∈ acls, entry.1 ≠ share) →
      run.state share t = s share t := by
  induction acls with
  | nil =>
    intro s run h share t _
    rw [← Option.some_inj.mp h]
    rfl
  | cons first acls ih =>
    intro s run h share t hother
    obtain ⟨r, hr, h⟩ := Option.bind_eq_some_iff.mp h
    obtain ⟨rest, hrest, h⟩ := Option.bind_eq_some_iff.mp h
    obtain rfl := Option.some_inj.mp h
    have hfirst := hother first List.mem_cons_self
    refine (ih hrest share t fun entry he => hother entry (List.mem_cons_of_mem _ he)).trans ?_
    exact (setuser_spec hr).other share t (Ne.symm hfirst)

/-- Entries of a share that declare a list alike, whose names DSM knows or which it has already,
leave it as declared. -/
theorem step_settles (acls : List (String × Json)) : ∀ {s : State} {run : Run},
    setuserStep dsm acls s = some run → ∀ (share : String) (t : Tier) (names : List String),
      (∀ entry ∈ acls, entry.1 = share → ∀ name, name ∈ declared entry.2 t ↔ name ∈ names) →
      ((∀ name, name ∈ names ↔ name ∈ s share t) ∨ ∀ name ∈ names, dsm.kept name = true) →
      ((∃ entry ∈ acls, entry.1 = share) ∨ ∀ name, name ∈ names ↔ name ∈ s share t) →
      ∀ name, name ∈ names ↔ name ∈ run.state share t := by
  induction acls with
  | nil =>
    intro s run h share t names _ _ hsome
    obtain ⟨_, hentry, _⟩ | hsame := hsome
    · exact nomatch hentry
    · rw [← Option.some_inj.mp h]
      exact hsame
  | cons first acls ih =>
    intro s run h share t names hnames hkept hsome
    obtain ⟨r, hr, h⟩ := Option.bind_eq_some_iff.mp h
    obtain ⟨rest, hrest, h⟩ := Option.bind_eq_some_iff.mp h
    obtain rfl := Option.some_inj.mp h
    have hspec := setuser_spec hr
    have htail := fun entry he => hnames entry (List.mem_cons_of_mem first he)
    by_cases hfirst : first.1 = share
    · -- after the first entry the list is as declared
      have hdeclared := hnames first List.mem_cons_self hfirst
      have hafter : ∀ name, name ∈ names ↔ name ∈ r.state share t := by
        by_cases hsame : Same first.2 t (s share t)
        · rw [← hfirst] at hsame ⊢
          rw [hspec.same t hsame]
          exact fun name => (hdeclared name).symm.trans ((same_iff hspec.texts).mp hsame name)
        · have hset := hspec.set t (hfirst ▸ hsame)
          rw [hfirst] at hset
          have hknown : ∀ n ∈ sorted (declared first.2 t).dedup, dsm.kept n = true := by
            intro n hn
            rw [mem_sorted, List.mem_dedup, hdeclared] at hn
            obtain hold | hkept := hkept
            · exact absurd ((same_iff hspec.texts).mpr fun name =>
                (hdeclared name).trans (hold name)) hsame
            · exact hkept n hn
          intro name
          rw [hset, setText, mem_taken_join hknown, mem_sorted, List.mem_dedup, hdeclared]
      exact ih hrest share t names htail (.inl hafter) (.inr hafter)
    · have hother := hspec.other share t (Ne.symm hfirst)
      refine ih hrest share t names htail (hother ▸ hkept) ?_
      obtain ⟨entry, hentry, hshare⟩ | hsame := hsome
      · obtain rfl | hentry := List.mem_cons.mp hentry
        · exact absurd hshare hfirst
        · exact .inl ⟨entry, hentry, hshare⟩
      · exact .inr (hother ▸ hsame)

/-- A name that DSM does not know is in a list after the step only if it was there before, and
all entries declare the list as it was. -/
theorem step_unknown (acls : List (String × Json)) : ∀ {s : State} {run : Run},
    setuserStep dsm acls s = some run → ∀ (share : String) (t : Tier) (name : String),
      ¬ dsm.kept name = true → name ∈ run.state share t →
      name ∈ s share t ∧ ∀ entry ∈ acls, entry.1 = share → Same entry.2 t (s share t) := by
  induction acls with
  | nil =>
    intro s run h share t name _ hname
    rw [← Option.some_inj.mp h] at hname
    exact ⟨hname, fun _ he => nomatch he⟩
  | cons first acls ih =>
    intro s run h share t name hkept hname
    obtain ⟨r, hr, h⟩ := Option.bind_eq_some_iff.mp h
    obtain ⟨rest, hrest, h⟩ := Option.bind_eq_some_iff.mp h
    obtain rfl := Option.some_inj.mp h
    have hspec := setuser_spec hr
    obtain ⟨hname, hall⟩ := ih hrest share t name hkept hname
    by_cases hfirst : first.1 = share
    · subst hfirst
      by_cases hsame : Same first.2 t (s first.1 t)
      · rw [hspec.same t hsame] at hname hall
        refine ⟨hname, fun entry he hshare => ?_⟩
        obtain rfl | he := List.mem_cons.mp he
        · exact hsame
        · exact hall entry he hshare
      · rw [hspec.set t hsame] at hname
        exact absurd (kept_of_mem_taken hname) hkept
    · rw [hspec.other share t (Ne.symm hfirst)] at hname hall
      refine ⟨hname, fun entry he hshare => ?_⟩
      obtain rfl | he := List.mem_cons.mp he
      · exact absurd hshare hfirst
      · exact hall entry he hshare

/-- A step that changes nothing finds every list as declared. -/
theorem same_of_quiet (acls : List (String × Json)) : ∀ {s : State} {run : Run},
    setuserStep dsm acls s = some run → run.changed = false →
      ∀ entry ∈ acls, ∀ t, Same entry.2 t (s entry.1 t) := by
  induction acls with
  | nil => exact fun _ _ _ he => nomatch he
  | cons first acls ih =>
    intro s run h hchanged entry he t
    obtain ⟨r, hr, h⟩ := Option.bind_eq_some_iff.mp h
    obtain ⟨rest, hrest, h⟩ := Option.bind_eq_some_iff.mp h
    obtain rfl := Option.some_inj.mp h
    obtain ⟨hfirst, hlater⟩ := Bool.or_eq_false_iff.mp hchanged
    have hspec := setuser_spec hr
    have hsame := hspec.quiet hfirst
    have hstate : ∀ share t, r.state share t = s share t := by
      intro share t
      by_cases hshare : share = first.1
      · exact hshare ▸ hspec.same t (hsame t)
      · exact hspec.other share t hshare
    obtain rfl | he := List.mem_cons.mp he
    · exact hsame t
    · have := ih hrest hlater entry he t
      rwa [hstate] at this

theorem step_quiet (acls : List (String × Json)) {s : State}
    (hvalid : ∀ entry ∈ acls, ∃ desired, desired_tiers entry.2 = some desired)
    (h : ∀ entry ∈ acls, ∀ t, Same entry.2 t (s entry.1 t)) :
    setuserStep dsm acls s = some (Run.none s) := by
  induction acls with
  | nil => rfl
  | cons first acls ih =>
    have hfirst := do_setuser_same dsm (hvalid first List.mem_cons_self) (h first List.mem_cons_self)
    have hrest := ih (fun e he => hvalid e (List.mem_cons_of_mem _ he))
      fun e he => h e (List.mem_cons_of_mem _ he)
    unfold setuserStep
    rw [hfirst]
    show (setuserStep dsm acls s).bind _ = _
    rw [hrest]
    rfl

/-! ### Two plays -/

/-- From these permissions a play reports no change and calls nothing, the admin groups are in
the read-write list of every share of `shares.yml` all the time, and the detector is silent. -/
def Stable (dsm : Dsm) (spec : Spec) (s : State) : Prop :=
  ∃ run, play dsm spec s = some run ∧ run.changed = false ∧ run.calls = [] ∧
    (∀ moment ∈ s :: run.calls.map Prod.snd, ∀ share ∈ spec.shares, ∀ a ∈ spec.admins,
      a ∈ moment share .RW) ∧
    NoDrift spec s

/-- The specs that can be settled, from some permissions before the first play. -/
structure Settled (dsm : Dsm) (spec : Spec) (s : State) : Prop where
  /-- Entries of one share declare the same. -/
  consistent : ∀ e ∈ spec.acls, ∀ e' ∈ spec.acls, e.1 = e'.1 →
    ∀ t name, name ∈ declared e.2 t ↔ name ∈ declared e'.2 t
  /-- DSM knows the principals of a list, or the list is as declared before the first play. -/
  known : ∀ e ∈ spec.acls, ∀ t, (∀ name, name ∈ declared e.2 t ↔ name ∈ s e.1 t) ∨
    ∀ name ∈ declared e.2 t, dsm.kept name = true
  /-- A share of both specs declares the admin groups. -/
  covered : ∀ e ∈ spec.acls, e.1 ∈ spec.shares → ∀ a ∈ spec.admins, a ∈ declared e.2 .RW
  /-- A share that is not in `shares.yml` declares nothing. -/
  listed : ∀ e ∈ spec.acls, e.1 ∉ spec.shares → ∀ t, declared e.2 t = []
  /-- DSM knows the admin groups that other shares lack. -/
  admins : ∀ share ∈ spec.shares, (∀ e ∈ spec.acls, e.1 ≠ share) → ∀ a ∈ spec.admins,
    a ∈ s share .RW ∨ dsm.kept a = true

theorem adminStep_spec {spec : Spec} {s : State} {run : Run}
    (h : adminStep dsm spec s = some run) : AdminSpec dsm spec.shares spec.admins s run := by
  unfold adminStep at h
  split_ifs at h with hrun
  · exact admin_spec h
  · obtain rfl := Option.some_inj.mp h
    refine ⟨fun _ _ _ => rfl, fun _ _ => .inl rfl, fun share hshare _ a ha => ?_⟩
    exact absurd ⟨List.ne_nil_of_mem ha, List.ne_nil_of_mem hshare⟩ hrun

/-- A name that DSM does not know is in a list after the admin step only if it was before. -/
theorem AdminSpec.unknown {shares admins : List String} {s : State} {run : Run}
    (h : AdminSpec dsm shares admins s run) {share : String} {t : Tier} {name : String}
    (hname : name ∈ run.state share t) : name ∈ s share t ∨ dsm.kept name = true := by
  by_cases hadd : share ∈ shares ∧ t = .RW
  · obtain ⟨hshare, rfl⟩ := hadd
    obtain hsame | hadded := h.add share hshare
    · exact .inl (hsame ▸ hname)
    · rw [hadded, List.mem_append] at hname
      exact hname.imp_right kept_of_mem_taken
  · refine .inl ?_
    rw [← h.other share t]
    · exact hname
    · by_cases hshare : share ∈ shares
      · exact .inr (.inl fun ht => hadd ⟨hshare, ht⟩)
      · exact .inl hshare

/-- The detector is silent about an entry exactly where its lists are as declared. -/
theorem diff_acls_nil {grants : Json} {live : Tiers} :
    diff_acls grants live = some [] ↔
      (∃ desired, desired_tiers grants = some desired) ∧ ∀ t, Same grants t (live t) := by
  unfold diff_acls
  rw [desired_tiers_eq]
  constructor
  · intro h
    obtain ⟨desired, hdesired, hdrift⟩ := Option.bind_eq_some_iff.mp h
    refine ⟨⟨desired, hdesired⟩, fun t => ⟨desired, hdesired, ?_⟩⟩
    by_contra hc
    exact nomatch (mem_drifted hdrift).mpr hc
  · rintro ⟨⟨desired, hdesired⟩, hsame⟩
    rw [hdesired]
    refine drifted_of_same fun t => ?_
    obtain ⟨desired', hdesired', hnames⟩ := hsame t
    rw [hdesired] at hdesired'
    exact Option.some_inj.mp hdesired' ▸ hnames

section Plays

variable {spec : Spec} {s : State} {first rest : Run}
  (hfirst : setuserStep dsm spec.acls s = some first)
  (hrest : adminStep dsm spec first.state = some rest)
include hfirst hrest

/-- Stable permissions come from specs that can be settled. -/
theorem settled_of_stable (h : Stable dsm spec rest.state) : Settled dsm spec s := by
  obtain ⟨run, hrun, hchanged, _, hadmins, hdrift⟩ := h
  obtain ⟨again, hagain, hrun⟩ := Option.bind_eq_some_iff.mp hrun
  obtain ⟨more, _, hrun⟩ := Option.bind_eq_some_iff.mp hrun
  obtain rfl := Option.some_inj.mp hrun
  have hsame := same_of_quiet spec.acls hagain (Bool.or_eq_false_iff.mp hchanged).1
  have htexts := texts_of_step spec.acls hfirst
  have hadmin := adminStep_spec hrest
  -- after the first play every list is as declared
  have hdeclared : ∀ e ∈ spec.acls, ∀ t name,
      name ∈ declared e.2 t ↔ name ∈ rest.state e.1 t :=
    fun e he t => (same_iff (htexts e he)).mp (hsame e he t)
  refine ⟨fun e he e' he' hshare t name => ?_, fun e he t => ?_, fun e he hshare a ha => ?_,
    fun e he hshare t => ?_, fun share hshare hnone a ha => ?_⟩
  · rw [hdeclared e he, hdeclared e' he', hshare]
  · by_cases hkept : ∀ name ∈ declared e.2 t, dsm.kept name = true
    · exact .inr hkept
    · simp only [not_forall] at hkept
      obtain ⟨name, hname, hkept⟩ := hkept
      have hold := (hadmin.unknown ((hdeclared e he t name).mp hname)).resolve_right hkept
      obtain ⟨_, hall⟩ := step_unknown spec.acls hfirst e.1 t name hkept hold
      exact .inl ((same_iff (htexts e he)).mp (hall e he rfl))
  · exact (hdeclared e he .RW a).mpr (hadmins rest.state List.mem_cons_self e.1 hshare a ha)
  · have hnone := (diff_acls_nil.mp (hdrift e he)).2 t
    rw [snapshot, if_neg hshare] at hnone
    refine List.eq_nil_iff_forall_not_mem.mpr fun name hname => ?_
    exact nomatch ((same_iff (htexts e he)).mp hnone name).mp hname
  · have hin := hadmins rest.state List.mem_cons_self share hshare a ha
    rw [← step_other spec.acls hfirst share .RW hnone]
    exact hadmin.unknown hin

/-- A play of such specs ends with stable permissions. -/
theorem stable_of_settled (h : Settled dsm spec s) : Stable dsm spec rest.state := by
  have htexts := texts_of_step spec.acls hfirst
  have hadmin := adminStep_spec hrest
  have hset : ∀ e ∈ spec.acls, ∀ t name, name ∈ declared e.2 t ↔ name ∈ first.state e.1 t :=
    fun e he t => step_settles spec.acls hfirst e.1 t (declared e.2 t)
      (fun e' he' hshare => h.consistent e' he' e he hshare t) (h.known e he t)
      (.inl ⟨e, he, rfl⟩)
  -- the admin step finds its groups in the lists that are declared
  have hsame : ∀ e ∈ spec.acls, ∀ t, Same e.2 t (rest.state e.1 t) := by
    intro e he t
    rw [hadmin.other e.1 t]
    · exact (same_iff (htexts e he)).mpr (hset e he t)
    · by_cases hshare : e.1 ∈ spec.shares
      · exact .inr (.inr fun a ha => (hset e he .RW a).mp (h.covered e he hshare a ha))
      · exact .inl hshare
  have hvalid : ∀ e ∈ spec.acls, ∃ desired, desired_tiers e.2 = some desired := fun e he =>
    (htexts e he).imp fun _ hd => hd.1
  have hadmins : ∀ share ∈ spec.shares, ∀ a ∈ spec.admins, a ∈ rest.state share .RW := by
    intro share hshare
    by_cases hentry : ∃ e ∈ spec.acls, e.1 = share
    · obtain ⟨e, he, rfl⟩ := hentry
      intro a ha
      exact ((same_iff (htexts e he)).mp (hsame e he .RW) a).mp (h.covered e he hshare a ha)
    · have hnone : ∀ e ∈ spec.acls, e.1 ≠ share := fun e he hc => hentry ⟨e, he, hc⟩
      refine hadmin.full share hshare fun a ha => ?_
      rw [step_other spec.acls hfirst share .RW hnone]
      exact h.admins share hshare hnone a ha
  have hquiet : adminStep dsm spec rest.state = some (Run.none rest.state) := by
    unfold adminStep
    split_ifs
    · exact do_admin_grants_quiet dsm hadmins
    · rfl
  refine ⟨Run.none rest.state, ?_, rfl, rfl, fun moment hmoment => ?_, fun e he => ?_⟩
  · unfold play
    rw [step_quiet spec.acls hvalid hsame]
    show (adminStep dsm spec rest.state).bind _ = _
    rw [hquiet]
    rfl
  · obtain rfl := List.mem_singleton.mp hmoment
    exact hadmins
  · refine diff_acls_nil.mpr ⟨hvalid e he, fun t => ?_⟩
    unfold snapshot
    split_ifs with hshare
    · exact hsame e he t
    · refine (same_iff (htexts e he)).mpr fun name => ?_
      rw [h.listed e he hshare t]

end Plays

/-- A DSM that knows every name that can be listed, and refuses nothing. -/
def plainDsm : Dsm where
  kept name := name ≠ "" ∧ ',' ∉ name.toList
  refuses _ := false
  kept_ne_empty := by decide
  kept_no_comma _ h := (of_decide_eq_true h).2

/-- One share with one grant, and one admin group. -/
def onlyMaya : Spec where
  acls := [("maya", .arr [.obj [("group", .str "maya"), ("access", .str "rw")]])]
  shares := ["maya"]
  admins := ["@KRG\\Domain Admins"]

/-- A fresh share. -/
def freshShare : State := fun _ t => if t = .RW then ["@administrators"] else []

theorem exists_play : ∃ run, play plainDsm onlyMaya freshShare = some run :=
  Option.isSome_iff_exists.mp (by decide +kernel)

end ShareAcls
