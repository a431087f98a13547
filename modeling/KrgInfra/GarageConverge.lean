/-
Garage's buckets and access keys: check mode, and what a second run finds.

* `Honest`, `Harmless` — check mode tells what would be changed, and a failure before the plan is
  complete changes nothing;
* `buckets_quiet_iff`, `keys_quiet_iff` — after a successful run the next one has nothing to do,
  as long as no two parts of the spec want different things in one place, and the files can be
  read back as they were written;
* `sync_settles` — both commands;
* `aliases_disagree` — two names of one bucket, with different rules.
-/
import KrgInfra.GarageGrants
import Mathlib

namespace Garage

open Registers Python

variable {P π : Type}

/-! ### Check mode and failures -/

/-- Check mode has no calls, and what it reports is what a run that applies it reports, unless one
of its calls fails. -/
structure Honest (check apply : Result P π) (w : World P) : Prop where
  no_calls : check.calls = []
  after : check.after = w
  no_change : check.outcome = .no_change ↔ apply.outcome = .no_change
  changed : ∀ payload, apply.outcome = .changed payload → check.outcome = .would_change payload
  would_change : ∀ payload, check.outcome = .would_change payload →
    apply.outcome = .changed payload ∨ ∃ call ∈ apply.calls, apply.outcome = .fail (.call call)
  fail : ∀ failure, check.outcome = .fail failure → apply.outcome = .fail failure

/-- A failure that is not one of a call has changed nothing. -/
def Harmless (r : Result P π) (w : World P) : Prop :=
  ∀ failure, r.outcome = .fail failure → (∀ call, failure ≠ .call call) → r.calls = [] ∧ r.after = w

/-- Nothing is reported, and no calls are made. -/
def Quiet (r : Result P π) : Prop := r.outcome = .no_change ∧ r.calls = []

section Conclude

variable [DecidableEq P] {env : Env} {w : World P} {plan : Plan P π}

theorem conclude_of_not_changed (h : plan.changed = false) (check : Bool) :
    conclude check env w (.ok plan) = ⟨.no_change, [], w⟩ := by
  rw [conclude, if_pos h]

/-- What a run that has something to change ends with. -/
theorem conclude_of_changed (h : plan.changed = true) :
    (conclude true env w (.ok plan) = ⟨.would_change plan.payload, [], w⟩) ∧
      ((conclude false env w (.ok plan)).outcome = .changed plan.payload ∨
        ∃ call ∈ (conclude false env w (.ok plan)).calls,
          (conclude false env w (.ok plan)).outcome = .fail (.call call)) := by
  have hne : ¬ plan.changed = false := by simp [h]
  rw [conclude, conclude, if_neg hne, if_pos rfl, if_neg hne, if_neg Bool.false_ne_true]
  refine ⟨rfl, ?_⟩
  dsimp only
  cases hfailed : (perform Call.run env.call plan.calls w).failed with
  | none => exact .inl rfl
  | some call => exact .inr ⟨call, failed_mem_calls hfailed, rfl⟩

theorem conclude_honest (x : Except (Failure P) (Plan P π)) :
    Honest (conclude true env w x) (conclude false env w x) w := by
  cases x with
  | error failure =>
    exact ⟨rfl, rfl, ⟨fun h => (nomatch h), fun h => (nomatch h)⟩, fun _ h => (nomatch h),
      fun _ h => (nomatch h), fun _ h => h⟩
  | ok plan =>
    cases hchanged : plan.changed with
    | false =>
      rw [conclude_of_not_changed hchanged, conclude_of_not_changed hchanged]
      exact ⟨rfl, rfl, Iff.rfl, fun _ h => (nomatch h), fun _ h => (nomatch h), fun _ h => h⟩
    | true =>
      obtain ⟨hcheck, happly⟩ := @conclude_of_changed P π _ env w plan hchanged
      rw [hcheck]
      refine ⟨rfl, rfl, ⟨fun h => (nomatch h), fun h => ?_⟩, fun payload h => ?_,
        fun payload h => ?_, fun _ h => (nomatch h)⟩
      · obtain hdone | ⟨call, -, hfail⟩ := happly
        · exact nomatch hdone.symm.trans h
        · exact nomatch hfail.symm.trans h
      · obtain hdone | ⟨call, -, hfail⟩ := happly
        · exact congrArg _ (Outcome.changed.inj (hdone.symm.trans h))
        · exact nomatch hfail.symm.trans h
      · exact Outcome.would_change.inj h ▸ happly

theorem conclude_harmless (check : Bool) (x : Except (Failure P) (Plan P π)) :
    Harmless (conclude check env w x) w := by
  intro failure hfail hcall
  cases x with
  | error failure => exact ⟨rfl, rfl⟩
  | ok plan =>
    cases hchanged : plan.changed with
    | false =>
      rw [conclude_of_not_changed hchanged]
      exact ⟨rfl, rfl⟩
    | true =>
      obtain ⟨hcheck, happly⟩ := @conclude_of_changed P π _ env w plan hchanged
      cases check with
      | true =>
        rw [hcheck]
        exact ⟨rfl, rfl⟩
      | false =>
        obtain hdone | ⟨call, -, hcalled⟩ := happly
        · exact nomatch hdone.symm.trans hfail
        · exact absurd (Outcome.fail.inj (hfail.symm.trans hcalled)) (hcall call)

/-- A run with a plan is quiet exactly if the plan has no changes. -/
theorem quiet_iff : Quiet (conclude false env w (.ok plan)) ↔ plan.changed = false := by
  constructor
  · intro h
    cases hchanged : plan.changed with
    | false => rfl
    | true =>
      obtain hdone | ⟨call, -, hfail⟩ := (conclude_of_changed hchanged).2
      · exact nomatch hdone.symm.trans h.1
      · exact nomatch hfail.symm.trans h.1
  · intro hchanged
    rw [conclude_of_not_changed hchanged]
    exact ⟨rfl, rfl⟩

end Conclude

/-! ### Rules of the spec -/

/-- What is sent is in the form in which rules are compared. -/
theorem canonical_apiRule (host : Host P) (cors : List CorsRule) :
    _cors_canonical (cors.map (apiRule host)) = cors.map (apiRule host) := by
  rw [_cors_canonical, List.map_map]
  rfl

theorem cors_api_rule_ok {host : Host P} {rule : CorsRule} {bucket : String} {r : ApiRule}
    (h : _cors_api_rule host rule bucket = .ok r) : r = apiRule host rule := by
  rw [_cors_api_rule] at h
  split_ifs at h
  exact (Except.ok.inj h).symm

theorem cors_api_rules_ok {host : Host P} {bucket : String} {cors : List CorsRule} :
    ∀ {rules : List ApiRule}, (cors.mapM fun r => _cors_api_rule host r bucket) = .ok rules →
      rules = cors.map (apiRule host) := by
  induction cors with
  | nil => exact fun h => (Except.ok.inj h).symm
  | cons rule cors ih =>
    intro rules h
    rw [List.mapM_cons] at h
    obtain ⟨r, hr, h⟩ := bind_ok.mp h
    obtain ⟨rest, hrest, h⟩ := bind_ok.mp h
    obtain rfl := Except.ok.inj h
    rw [cors_api_rule_ok hr, ih hrest, List.map_cons]

/-- Under distinct names, each entry has the rules that are declared in it. -/
theorem wanted_eq {host : Host P} {desired : List BucketSpec}
    {cors : List (String × List ApiRule)} (h : desired_cors host desired = .ok cors)
    (hnames : (desired.map BucketSpec.name).Nodup) {b : BucketSpec} (hb : b ∈ desired) :
    wanted cors b.name = b.cors.map (apiRule host) := by
  have hfold : ∀ (l : List BucketSpec) (d : List (String × List ApiRule)),
      (l.map BucketSpec.name).Nodup → (l.foldlM (fun d b => do
        let rules ← b.cors.mapM fun r => _cors_api_rule host r b.name
        return Dict.set d b.name rules) d) = Except.ok cors →
      (∀ b ∈ l, cors.lookup b.name = some (b.cors.map (apiRule host))) ∧
        ∀ name ∉ l.map BucketSpec.name, cors.lookup name = d.lookup name := by
    intro l
    induction l with
    | nil => exact fun d _ h => ⟨fun _ hb => (nomatch hb), fun _ _ => Except.ok.inj h ▸ rfl⟩
    | cons first l ih =>
      intro d hnodup h
      obtain ⟨hfirst, hnodup⟩ := List.nodup_cons.mp hnodup
      rw [List.foldlM_cons] at h
      obtain ⟨d', hd', h⟩ := bind_ok.mp h
      obtain ⟨rules, hrules, hd'⟩ := bind_ok.mp hd'
      obtain rfl := Except.ok.inj hd'
      obtain ⟨hall, hother⟩ := ih _ hnodup h
      constructor
      · intro b hb
        obtain rfl | hb := List.mem_cons.mp hb
        · rw [hother _ hfirst, Dict.lookup_set, if_pos rfl, cors_api_rules_ok hrules]
        · exact hall b hb
      · intro name hname
        rw [List.map_cons, List.mem_cons, not_or] at hname
        rw [hother _ hname.2, Dict.lookup_set, if_neg hname.1]
  rw [wanted, (hfold desired [] hnames h).1 b hb]
  rfl

/-! ### Buckets -/

/-- What a plan of `sync-buckets` was made from. -/
structure BucketsRead (desired_names : List String) (env : Env) (c : Cluster) : Prop where
  buckets : env.read .listBuckets = true
  read : bucket_unread (P := P) desired_names env c = none

/-- The plan that is made from it. -/
def buckets_planned (env : Env) (w : World P) (desired_names : List String)
    (cors : List (String × List ApiRule)) : Plan P BucketPayload :=
  let missing := missing desired_names w.cluster
  let cors_to_set := cors_to_set desired_names cors w.cluster
  { payload := ⟨missing, cors_to_set.map Prod.fst⟩
    changed := missing ≠ [] || cors_to_set ≠ []
    calls := bucket_calls env w.cluster missing cors_to_set }

theorem bucket_plan_ok {host : Host P} {a : BucketArgs} {env : Env} {w : World P}
    {plan : Plan P BucketPayload} :
    bucket_plan host a env w = .ok plan ↔ ∃ desired_names cors,
      bucket_spec host a = .ok (desired_names, cors) ∧
      BucketsRead (P := P) desired_names env w.cluster ∧
      plan = buckets_planned env w desired_names cors := by
  rw [bucket_plan, bind_ok]
  constructor
  · rintro ⟨⟨desired_names, cors⟩, hspec, h⟩
    obtain ⟨hbuckets, h⟩ := refuse_bind.mp h
    obtain ⟨hread, h⟩ := refuse_bind.mp h
    exact ⟨desired_names, cors, hspec, ⟨ite_none_some.mp hbuckets, hread⟩,
      (Except.ok.inj h).symm⟩
  · rintro ⟨desired_names, cors, hspec, h, rfl⟩
    exact ⟨_, hspec, refuse_bind.mpr ⟨ite_none_some.mpr h.buckets, refuse_bind.mpr ⟨h.read, rfl⟩⟩⟩

theorem bucket_spec_ok {host : Host P} {a : BucketArgs} {desired : List BucketSpec}
    {desired_names : List String} {cors : List (String × List ApiRule)}
    (hdesired : a.buckets_json = .ok desired)
    (h : bucket_spec host a = .ok (desired_names, cors)) :
    desired_names = desired.map BucketSpec.name ∧ desired_cors host desired = .ok cors := by
  rw [bucket_spec, hdesired] at h
  obtain ⟨-, h⟩ := refuse_bind.mp h
  obtain ⟨_, hd, h⟩ := bind_ok.mp h
  obtain rfl : desired = _ := Except.ok.inj hd
  obtain ⟨cors', hcors, h⟩ := bind_ok.mp h
  obtain ⟨rfl, rfl⟩ := Prod.mk.inj (Except.ok.inj h)
  refine ⟨rfl, ?_⟩
  cases hd : desired_cors host desired with
  | error e =>
    rw [hd] at hcors
    exact nomatch hcors
  | ok d =>
    rw [hd] at hcors
    rw [Except.ok.inj hcors]

/-- The bucket of a name, once the missing ones are created. -/
def bucketOf (env : Env) (c : Cluster) (name : String) : String :=
  (c.idOf name).getD (env.created name)

section Created

variable [DecidableEq P] {env : Env} {w w' : World P} {desired_names : List String}
  {cors : List (String × List ApiRule)}

/-- What is added, by the calls of `sync-buckets`. -/
theorem buckets_after
    (h : runs Call.run (buckets_planned env w desired_names cors).calls w = some w') :
    Dict.keys w'.cluster.buckets = Dict.keys w.cluster.buckets ++
      (missing desired_names w.cluster).map env.created := by
  have hnone : ∀ l : List (String × List ApiRule), (l.map fun item => Call.updateBucket (P := P)
      ((w.cluster.idOf item.1).getD (env.created item.1)) item.2).filterMap created = [] := by
    intro l
    refine List.filterMap_eq_nil_iff.mpr fun call hcall => ?_
    obtain ⟨item, -, rfl⟩ := List.mem_map.mp hcall
    rfl
  rw [buckets_of_runs h]
  refine congrArg _ ?_
  show (bucket_calls _ _ _ _).filterMap created = _
  rw [bucket_calls, List.filterMap_append, hnone, List.append_nil, List.filterMap_map,
    ← List.filterMap_eq_map]
  rfl

/-- Every declared name leads to its bucket afterwards. -/
theorem idOf_created
    (h : runs Call.run (buckets_planned env w desired_names cors).calls w = some w')
    {name : String} (hname : name ∈ desired_names) :
    w'.cluster.idOf name = some (bucketOf env w.cluster name) := by
  have hupdate : ∀ call ∈ (cors_to_set desired_names cors w.cluster).map (fun item =>
      Call.updateBucket (P := P) ((w.cluster.idOf item.1).getD (env.created item.1)) item.2),
      (names name).written call = none := by
    intro call hcall
    obtain ⟨item, -, rfl⟩ := List.mem_map.mp hcall
    rfl
  rw [bucketOf]
  cases hid : w.cluster.idOf name with
  | some id =>
    -- a name that is there is not created
    refine ((names name).read_of_unwritten (fun call hcall => ?_) h).trans hid
    obtain hcall | hcall := List.mem_append.mp hcall
    · obtain ⟨other, hother, rfl⟩ := List.mem_map.mp hcall
      have hmissing : w.cluster.idOf other = none :=
        of_decide_eq_true (List.mem_filter.mp hother).2
      refine if_neg fun he => ?_
      rw [← he, hid] at hmissing
      exact nomatch hmissing
    · exact hupdate call hcall
  | none =>
    refine (names name).read_of_agreed (fun call hcall v hv => ?_) h (.inr ?_)
    · obtain hcall | hcall := List.mem_append.mp hcall
      · obtain ⟨other, -, rfl⟩ := List.mem_map.mp hcall
        have hv : (if name = other then some (some (env.created other)) else none) = some v := hv
        split_ifs at hv with he
        rw [← Option.some_inj.mp hv, he]
        rfl
      · exact nomatch (hupdate call hcall).symm.trans hv
    · refine ⟨_, List.mem_append_left _ (List.mem_map.mpr ⟨name, ?_, rfl⟩), _, if_pos rfl⟩
      exact List.mem_filter.mpr ⟨hname, decide_eq_true hid⟩

/-- A bucket that is created is not one that was there, nor the one of another name. -/
theorem eq_of_bucketOf
    (h : runs Call.run (buckets_planned env w desired_names cors).calls w = some w')
    {name other : String} (hname : name ∈ desired_names) (hother : other ∈ desired_names)
    (he : bucketOf env w.cluster name = bucketOf env w.cluster other) :
    name = other ∨ ∃ id, w.cluster.idOf name = some id ∧ w.cluster.idOf other = some id := by
  have hnodup := w'.cluster.nodup_buckets
  rw [buckets_after h] at hnodup
  have hnew : ∀ {n}, n ∈ desired_names → w.cluster.idOf n = none →
      n ∈ missing desired_names w.cluster :=
    fun hn hid => List.mem_filter.mpr ⟨hn, decide_eq_true hid⟩
  have hdisjoint : ∀ {n m id}, n ∈ desired_names → w.cluster.idOf n = none →
      w.cluster.idOf m = some id → env.created n ≠ id := by
    intro n m id hn hid hm hcreated
    exact (List.disjoint_of_nodup_append hnodup) (Cluster.mem_buckets hm)
      (List.mem_map.mpr ⟨n, hnew hn hid, hcreated⟩)
  rw [bucketOf, bucketOf] at he
  cases hid : w.cluster.idOf name with
  | none =>
    rw [hid] at he
    cases hid' : w.cluster.idOf other with
    | none =>
      rw [hid'] at he
      exact .inl (List.inj_on_of_nodup_map (List.nodup_append.mp hnodup).2.1
        (hnew hname hid) (hnew hother hid') he)
    | some id' =>
      rw [hid'] at he
      exact absurd he (hdisjoint hname hid hid')
  | some id =>
    rw [hid] at he
    cases hid' : w.cluster.idOf other with
    | none =>
      rw [hid'] at he
      exact absurd he.symm (hdisjoint hother hid' hid)
    | some id' =>
      rw [hid'] at he
      exact .inr ⟨id, rfl, congrArg _ he.symm⟩

/-- What the calls write to the rules of a bucket is wanted for one of its names. -/
theorem rules_written {id : String} {v : List ApiRule} :
    (∃ call ∈ (buckets_planned env w desired_names cors).calls,
        (rules id).written call = some v) ↔
      ∃ item ∈ cors_to_set desired_names cors w.cluster,
        bucketOf env w.cluster item.1 = id ∧ v = _cors_canonical item.2 := by
  constructor
  · rintro ⟨call, hcall, hv⟩
    obtain hcall | hcall := List.mem_append.mp hcall
    · obtain ⟨n, -, rfl⟩ := List.mem_map.mp hcall
      exact nomatch hv
    · obtain ⟨item, hitem, rfl⟩ := List.mem_map.mp hcall
      have hv : (if bucketOf env w.cluster item.1 = id then some (_cors_canonical item.2)
        else none) = some v := hv
      split_ifs at hv with hid
      exact ⟨item, hitem, hid, (Option.some_inj.mp hv).symm⟩
  · rintro ⟨item, hitem, hid, rfl⟩
    exact ⟨_, List.mem_append_right _ (List.mem_map.mpr ⟨item, hitem, rfl⟩), if_pos hid⟩

/-- The rules that are sent are those that differ. -/
theorem mem_cors_to_set {c : Cluster} {item : String × List ApiRule} :
    item ∈ cors_to_set desired_names cors c ↔ item.1 ∈ desired_names ∧
      item.2 = wanted cors item.1 ∧ match c.idOf item.1 with
        | none => wanted cors item.1 ≠ []
        | some id => _cors_canonical (c.corsRules id) ≠ _cors_canonical (wanted cors item.1) := by
  obtain ⟨name, want⟩ := item
  rw [cors_to_set, List.mem_filterMap]
  constructor
  · rintro ⟨n, hn, hitem⟩
    dsimp only at hitem
    cases hid : c.idOf n with
    | none =>
      rw [hid] at hitem
      dsimp only at hitem
      split_ifs at hitem with hwant
      obtain ⟨rfl, rfl⟩ := Prod.mk.inj (Option.some_inj.mp hitem)
      refine ⟨hn, rfl, ?_⟩
      rw [hid]
      exact hwant
    | some id =>
      rw [hid] at hitem
      dsimp only at hitem
      split_ifs at hitem with hwant
      obtain ⟨rfl, rfl⟩ := Prod.mk.inj (Option.some_inj.mp hitem)
      refine ⟨hn, rfl, ?_⟩
      rw [hid]
      exact hwant
  · rintro ⟨hn, hitem, hwant⟩
    obtain rfl : want = wanted cors name := hitem
    refine ⟨name, hn, ?_⟩
    dsimp only at hwant ⊢
    cases hid : c.idOf name with
    | none =>
      rw [hid] at hwant
      exact if_neg hwant
    | some id =>
      rw [hid] at hwant
      exact if_neg hwant

/-- The rules that are wanted are all there afterwards exactly if the names of one bucket want the
same. -/
theorem rules_settled (h : runs Call.run (buckets_planned env w desired_names cors).calls w = some w') :
    (∀ name ∈ desired_names, _cors_canonical (w'.cluster.corsRules
        (bucketOf env w.cluster name)) = _cors_canonical (wanted cors name)) ↔
      ∀ name ∈ desired_names, ∀ other ∈ desired_names, ∀ id, w.cluster.idOf name = some id →
        w.cluster.idOf other = some id →
          _cors_canonical (wanted cors name) = _cors_canonical (wanted cors other) := by
  constructor
  · intro hset name hname other hother id hid hid'
    have hname := hset name hname
    have hother := hset other hother
    rw [bucketOf, hid] at hname
    rw [bucketOf, hid'] at hother
    exact hname.symm.trans hother
  · intro hagree name hname
    refine (rules (bucketOf env w.cluster name)).read_of_agreed (fun call hcall v hv => ?_) h ?_
    · obtain ⟨item, hitem, hid, rfl⟩ := rules_written.mp ⟨call, hcall, hv⟩
      obtain ⟨hother, hwant, -⟩ := mem_cors_to_set.mp hitem
      rw [hwant]
      obtain he | ⟨id, hid, hid'⟩ := eq_of_bucketOf h hother hname hid
      · rw [he]
      · exact hagree _ hother _ hname id hid hid'
    · by_cases hsent : (name, wanted cors name) ∈ cors_to_set desired_names cors w.cluster
      · obtain ⟨call, hcall, hv⟩ := rules_written.mpr ⟨_, hsent, rfl, rfl⟩
        exact .inr ⟨call, hcall, _, hv⟩
      · -- what is not sent is as it should be
        left
        show _cors_canonical (w.cluster.corsRules _) = _
        rw [mem_cors_to_set] at hsent
        rw [bucketOf]
        cases hid : w.cluster.idOf name with
        | some id =>
          rw [hid] at hsent
          exact not_not.mp fun hne => hsent ⟨hname, rfl, hne⟩
        | none =>
          have hempty : wanted cors name = [] := by
            rw [hid] at hsent
            exact not_not.mp fun hne => hsent ⟨hname, rfl, hne⟩
          have hnodup := w'.cluster.nodup_buckets
          rw [buckets_after h] at hnodup
          have hnew : env.created name ∉ Dict.keys w.cluster.buckets := fun hmem =>
            (List.disjoint_of_nodup_append hnodup) hmem
              (List.mem_map.mpr ⟨name, List.mem_filter.mpr ⟨hname, decide_eq_true hid⟩, rfl⟩)
          have hnone : w.cluster.buckets.lookup (env.created name) = none :=
            not_not.mp fun hne => hnew (Dict.mem_keys_iff.mpr hne)
          rw [hempty, Option.getD_none, Cluster.corsRules, hnone]
          rfl

end Created

/-- A successful run of `sync-buckets` has carried out its plan. -/
theorem sync_buckets_succeeded [DecidableEq P] {host : Host P} {a : BucketArgs} {env : Env}
    {w : World P} (h : (do_sync_buckets host a false env w).outcome.Succeeded) :
    ∃ desired_names cors, bucket_spec host a = .ok (desired_names, cors) ∧
      runs Call.run (buckets_planned env w desired_names cors).calls w =
        some (do_sync_buckets host a false env w).after := by
  -- a plan without changes has no calls
  have hquiet : ∀ plan, bucket_plan host a env w = .ok plan → plan.changed = false →
      runs Call.run plan.calls w = some w := by
    intro plan hplan hchanged
    obtain ⟨desired_names, cors, -, -, rfl⟩ := bucket_plan_ok.mp hplan
    obtain ⟨hmissing, hset⟩ : missing desired_names w.cluster = [] ∧
        cors_to_set desired_names cors w.cluster = [] := by
      simpa [buckets_planned] using hchanged
    show runs Call.run (bucket_calls _ _ _ _) w = some w
    rw [hmissing, hset]
    rfl
  obtain ⟨plan, hplan, hrun⟩ := conclude_succeeded hquiet h
  obtain ⟨desired_names, cors, hspec, -, rfl⟩ := bucket_plan_ok.mp hplan
  exact ⟨desired_names, cors, hspec, hrun⟩

/-- The names of one bucket declare the same rules, as they are sent. -/
def SameRules (host : Host P) (c : Cluster) (desired : List BucketSpec) : Prop :=
  ∀ b ∈ desired, ∀ other ∈ desired, ∀ id, c.idOf b.name = some id → c.idOf other.name = some id →
    b.cors.map (apiRule host) = other.cors.map (apiRule host)

/-- After a successful run the next one has nothing to do exactly if the names of one bucket
declare the same rules. -/
theorem buckets_quiet_iff [DecidableEq P] {host : Host P} {a : BucketArgs} {env env' : Env}
    {w : World P} {desired : List BucketSpec} (hdesired : a.buckets_json = .ok desired)
    (hnames : (desired.map BucketSpec.name).Nodup)
    (h : (do_sync_buckets host a false env w).outcome.Succeeded)
    (hread : ∀ read, env'.read read = true) :
    Quiet (do_sync_buckets host a false env' (do_sync_buckets host a false env w).after) ↔
      SameRules host w.cluster desired := by
  obtain ⟨desired_names, cors, hspec, hrun⟩ := sync_buckets_succeeded h
  obtain ⟨rfl, hcors⟩ := bucket_spec_ok hdesired hspec
  set w' := (do_sync_buckets host a false env w).after
  have hthere : ∀ name ∈ desired.map BucketSpec.name,
      w'.cluster.idOf name = some (bucketOf env w.cluster name) :=
    fun name hname => idOf_created hrun hname
  have hplan : bucket_plan host a env' w' =
      .ok (buckets_planned env' w' (desired.map BucketSpec.name) cors) := by
    refine bucket_plan_ok.mpr ⟨_, _, hspec, ⟨hread _, ?_⟩, rfl⟩
    refine List.findSome?_eq_none_iff.mpr fun name _ => ?_
    rw [hread, Bool.not_true, Bool.and_false]
    rfl
  have hmissing : missing (desired.map BucketSpec.name) w'.cluster = [] := by
    refine List.filter_eq_nil_iff.mpr fun name hname => ?_
    rw [hthere name hname]
    simp
  have hset : cors_to_set (desired.map BucketSpec.name) cors w'.cluster = [] ↔
      ∀ name ∈ desired.map BucketSpec.name, _cors_canonical (w'.cluster.corsRules
        (bucketOf env w.cluster name)) = _cors_canonical (wanted cors name) := by
    rw [List.eq_nil_iff_forall_not_mem]
    constructor
    · intro hnone name hname
      refine not_not.mp fun hne => hnone (name, wanted cors name) (mem_cors_to_set.mpr ?_)
      refine ⟨hname, rfl, ?_⟩
      rw [hthere name hname]
      exact hne
    · intro hall item hitem
      obtain ⟨hname, -, hne⟩ := mem_cors_to_set.mp hitem
      rw [hthere _ hname] at hne
      exact hne (hall _ hname)
  have hchanged : (buckets_planned env' w' (desired.map BucketSpec.name) cors).changed = false ↔
      cors_to_set (desired.map BucketSpec.name) cors w'.cluster = [] := by
    simp [buckets_planned, hmissing]
  rw [do_sync_buckets, hplan, quiet_iff]
  calc (buckets_planned env' w' (desired.map BucketSpec.name) cors).changed = false
      ↔ _ := hchanged.trans (hset.trans (rules_settled hrun))
    _ ↔ SameRules host w.cluster desired := by
      have hwant : ∀ b ∈ desired, _cors_canonical (wanted cors b.name) =
          b.cors.map (apiRule host) := by
        intro b hb
        rw [wanted_eq hcors hnames hb, canonical_apiRule]
      simp only [List.forall_mem_map]
      constructor
      · intro hall b hb other hother id hid hid'
        rw [← hwant b hb, ← hwant other hother]
        exact hall b hb other hother id hid hid'
      · intro hall b hb other hother id hid hid'
        rw [hwant b hb, hwant other hother]
        exact hall b hb other hother id hid hid'

/-! ### Keys -/

section Files

variable [DecidableEq P] {host : Host P} {a : KeyArgs} {env : Env} {w w' : World P}
  {desired_keys : List KeySpec} {key_creds : String → Credential} {ids : List (String × String)}

/-- The file that a key is rendered to. -/
def envFile (host : Host P) (a : KeyArgs) (name : String) : P := host.locate (secret_path a name)

/-- What the calls write to a file is the body of one of its keys. -/
theorem file_written {path : P} {v : Option String} :
    (∃ call ∈ (keys_planned host a w desired_keys key_creds ids).calls,
        (file path).written call = some v) ↔
      ∃ name ∈ env_to_write host a desired_keys key_creds w,
        envFile host a name = path ∧ v = some (env_body key_creds name) := by
  constructor
  · rintro ⟨call, hcall, hv⟩
    obtain hcall | hcall := List.mem_append.mp hcall
    · obtain hcall | hcall := List.mem_append.mp hcall
      · obtain rfl | hcall := List.mem_cons.mp hcall
        · cases hv
        · obtain ⟨n, -, rfl⟩ := List.mem_map.mp hcall
          cases hv
      · obtain ⟨name, hname, rfl⟩ := List.mem_map.mp hcall
        have hv : (if path = envFile host a name then some (some (env_body key_creds name))
          else none) = some v := hv
        split_ifs at hv with hpath
        exact ⟨name, hname, hpath.symm, (Option.some_inj.mp hv).symm⟩
    · obtain ⟨op, -, rfl⟩ := List.mem_map.mp hcall
      rw [GrantOp.call] at hv
      cases hop : op.op with
      | allow =>
        rw [hop] at hv
        cases hv
      | deny =>
        rw [hop] at hv
        cases hv
  · rintro ⟨name, hname, rfl, rfl⟩
    refine ⟨_, List.mem_append_left _ (List.mem_append_right _
      (List.mem_map.mpr ⟨name, hname, rfl⟩)), if_pos rfl⟩

/-- The bodies that are wanted can all be read back afterwards exactly if no file is wanted with
two of them, and none of them has a carriage return. -/
theorem files_settled
    (h : runs Call.run (keys_planned host a w desired_keys key_creds ids).calls w = some w') :
    (∀ name ∈ desired_keys.map KeySpec.name, (w'.files (envFile host a name)).map readText =
        some (env_body key_creds name)) ↔
      (∀ name ∈ desired_keys.map KeySpec.name, ∀ other ∈ desired_keys.map KeySpec.name,
        envFile host a name = envFile host a other →
          env_body key_creds name = env_body key_creds other) ∧
      ∀ name ∈ desired_keys.map KeySpec.name, '\r' ∉ (env_body key_creds name).toList := by
  constructor
  · intro hall
    constructor
    · intro name hname other hother he
      have hread := hall name hname
      rw [he, hall other hother] at hread
      exact (Option.some_inj.mp hread).symm
    · intro name hname
      obtain ⟨content, -, hread⟩ := Option.map_eq_some_iff.mp (hall name hname)
      rw [← hread]
      exact cr_not_mem_readText content
  · rintro ⟨hagree, hcr⟩ name hname
    by_cases hwrite : ∃ other ∈ env_to_write host a desired_keys key_creds w,
        envFile host a other = envFile host a name
    · have hcontent : w'.files (envFile host a name) = some (env_body key_creds name) := by
        refine (file (envFile host a name)).read_of_agreed (fun call hcall v hv => ?_) h (.inr ?_)
        · obtain ⟨other, hother, hpath, rfl⟩ := file_written.mp ⟨call, hcall, hv⟩
          rw [hagree other (List.mem_filter.mp hother).1 name hname hpath]
        · obtain ⟨other, hother, hpath⟩ := hwrite
          obtain ⟨call, hcall, hv⟩ := file_written.mpr ⟨other, hother, hpath, rfl⟩
          exact ⟨call, hcall, _, hv⟩
      rw [hcontent, Option.map_some, readText_eq_self (hcr name hname)]
    · -- a file that is not written is as it should be
      have hsame : w'.files (envFile host a name) = w.files (envFile host a name) := by
        refine (file (envFile host a name)).read_of_unwritten (fun call hcall => ?_) h
        cases hv : (file (envFile host a name)).written call with
        | none => rfl
        | some v =>
          obtain ⟨other, hother, hpath, -⟩ := file_written.mp ⟨call, hcall, hv⟩
          exact absurd ⟨other, hother, hpath⟩ hwrite
      rw [hsame]
      refine not_not.mp fun hne => hwrite ⟨name, List.mem_filter.mpr ⟨hname, ?_⟩, rfl⟩
      exact decide_eq_true hne

/-- The body of a file has the carriage returns of the credential. -/
theorem cr_mem_env_body (name : String) :
    '\r' ∈ (env_body key_creds name).toList ↔ '\r' ∈ (key_creds name).access_key_id.toList ∨
      '\r' ∈ (key_creds name).secret_access_key.toList := by
  have hid : '\r' ∉ "ACCESS_KEY_ID=".toList := cr_not_mem_ofList (by decide)
  have hsecret : '\r' ∉ "\nSECRET_ACCESS_KEY=".toList := cr_not_mem_ofList (by decide)
  have hend : '\r' ∉ "\n".toList := cr_not_mem_ofList (by decide)
  unfold env_body
  simp only [String.toList_append, List.mem_append, hid, hsecret, hend, false_or, or_false]

/-- The next run can make its plan, and finds every declared key under its id. -/
theorem keys_read_after {env' : Env} (hnames : (desired_keys.map KeySpec.name).Nodup)
    (hread : KeysRead (P := P) desired_keys key_creds ids env w.cluster)
    (h : runs Call.run (keys_planned host a w desired_keys key_creds ids).calls w = some w')
    (hread' : ∀ read, env'.read read = true) :
    ∃ ids', KeysRead (P := P) desired_keys key_creds ids' env' w'.cluster ∧
      ∀ kspec ∈ desired_keys,
        ids'.lookup kspec.name = some (key_creds kspec.name).access_key_id := by
  have hnodup : (w'.cluster.keys.map Prod.snd).Nodup := by
    rw [keys_after h, List.map_append, List.map_map, List.nodup_append]
    refine ⟨(key_id_by_name_ok.mp hread.table).1, ?_, ?_⟩
    · exact (List.map_id _).symm ▸ hnames.filter _
    · intro name hname other hother he
      obtain ⟨⟨id, n⟩, hmem, rfl⟩ := List.mem_map.mp hname
      obtain ⟨m, hm, rfl⟩ := List.mem_map.mp hother
      have hnone : ids.lookup m = none := of_decide_eq_true (List.mem_filter.mp hm).2
      have he : n = m := he
      have hlookup : ids.lookup m = some id := (lookup_ids hread.table).mpr (he ▸ hmem)
      exact nomatch hnone.symm.trans hlookup
  have htable : key_id_by_name (P := P) w'.cluster.keys =
      .ok (w'.cluster.keys.map Prod.swap) := key_id_by_name_ok.mpr ⟨hnodup, rfl⟩
  have hlookup : ∀ kspec ∈ desired_keys, (w'.cluster.keys.map Prod.swap).lookup kspec.name =
      some (key_creds kspec.name).access_key_id :=
    fun kspec hk => (lookup_ids htable).mpr (declared_after hread h hk)
  refine ⟨_, ⟨hread' _, fun kspec hk bspec hb => ?_, hread' _, htable, ?_, ?_⟩, hlookup⟩
  · rw [idOf_after h]
    exact hread.known kspec hk bspec hb
  · refine List.filterMap_eq_nil_iff.mpr fun name hname => ?_
    obtain ⟨kspec, hk, rfl⟩ := List.mem_map.mp hname
    rw [hlookup kspec hk]
    exact if_pos rfl
  · exact List.findSome?_eq_none_iff.mpr fun read _ => if_pos (hread' read)

end Files

/-- An entry has nothing to do exactly if its key has what it declares. -/
theorem entry_ops_eq_nil {c : Cluster} {ids : List (String × String)} {kspec : KeySpec}
    {bspec : GrantSpec} {bucket key : String} (hbucket : c.idOf bspec.name = some bucket)
    (hkey : ids.lookup kspec.name = some key) :
    entry_ops c ids kspec bspec = [] ↔ c.perms bucket key = declared bspec.permissions := by
  simp only [entry_ops, hbucket, Option.getD_some, current_perms, hkey]
  rw [List.append_eq_nil_iff]
  constructor
  · rintro ⟨hallow, hdeny⟩
    refine Finset.Subset.antisymm ?_ ?_
    · refine Finset.sdiff_eq_empty_iff_subset.mp (not_not.mp fun hne => ?_)
      rw [if_neg hne] at hdeny
      cases hdeny
    · refine Finset.sdiff_eq_empty_iff_subset.mp (not_not.mp fun hne => ?_)
      rw [if_neg hne] at hallow
      cases hallow
  · intro he
    rw [he, Finset.sdiff_self, if_pos rfl]
    exact ⟨rfl, rfl⟩

/-- The files of two keys are different, or have the same body. -/
def OneBody (host : Host P) (a : KeyArgs) (desired_keys : List KeySpec)
    (key_creds : String → Credential) : Prop :=
  ∀ kspec ∈ desired_keys, ∀ other ∈ desired_keys,
    envFile host a kspec.name = envFile host a other.name →
      env_body key_creds kspec.name = env_body key_creds other.name

/-- No credential has a carriage return. -/
def NoReturns (desired_keys : List KeySpec) (key_creds : String → Credential) : Prop :=
  ∀ kspec ∈ desired_keys, '\r' ∉ (key_creds kspec.name).access_key_id.toList ∧
    '\r' ∉ (key_creds kspec.name).secret_access_key.toList

/-- After a successful run the next one has nothing to do exactly if the entries of a key for one
bucket agree, no file is wanted with two bodies, and no credential has a carriage return. -/
theorem keys_quiet_iff [DecidableEq P] {host : Host P} {a : KeyArgs} {env env' : Env}
    {w : World P} {desired_keys : List KeySpec} {key_creds : String → Credential}
    (hspec : key_spec (P := P) a = .ok (desired_keys, key_creds))
    (hnames : (desired_keys.map KeySpec.name).Nodup)
    (h : (do_sync_keys host a false env w).outcome.Succeeded)
    (hread : ∀ read, env'.read read = true) :
    Quiet (do_sync_keys host a false env' (do_sync_keys host a false env w).after) ↔
      (∀ kspec ∈ desired_keys, Agreed w.cluster kspec) ∧
        OneBody host a desired_keys key_creds ∧ NoReturns desired_keys key_creds := by
  obtain ⟨desired, creds, ids, hspec', hkeys, hrun⟩ := sync_keys_succeeded h
  obtain ⟨rfl, rfl⟩ := Prod.mk.inj (Except.ok.inj (hspec.symm.trans hspec'))
  set w' := (do_sync_keys host a false env w).after
  obtain ⟨ids', hkeys', hlookup⟩ := keys_read_after hnames hkeys hrun hread
  have hplan : key_plan host a env' w' =
      .ok (keys_planned host a w' desired_keys key_creds ids') :=
    key_plan_ok.mpr ⟨_, _, _, hspec, hkeys', rfl⟩
  have himport : to_import desired_keys ids' = [] := by
    refine List.filter_eq_nil_iff.mpr fun name hname => ?_
    obtain ⟨kspec, hk, rfl⟩ := List.mem_map.mp hname
    rw [hlookup kspec hk]
    simp
  have hwrite : env_to_write host a desired_keys key_creds w' = [] ↔
      OneBody host a desired_keys key_creds ∧ NoReturns desired_keys key_creds := by
    have hsettled := files_settled hrun
    simp only [List.forall_mem_map, cr_mem_env_body, not_or] at hsettled
    refine Iff.trans ?_ hsettled
    simp [env_to_write, envFile]
  have hgrant : grant_ops w'.cluster ids' desired_keys = [] ↔
      ∀ kspec ∈ desired_keys, Agreed w.cluster kspec := by
    have hentry : ∀ {kspec}, kspec ∈ desired_keys → ∀ {bspec id},
        w.cluster.idOf bspec.name = some id → (entry_ops w'.cluster ids' kspec bspec = [] ↔
          w'.cluster.perms id (key_creds kspec.name).access_key_id =
            declared bspec.permissions) := by
      intro kspec hk bspec id hid
      rw [← idOf_after hrun] at hid
      exact entry_ops_eq_nil hid (hlookup kspec hk)
    simp only [grant_ops, List.flatMap_eq_nil_iff]
    constructor
    · intro hall kspec hk bspec hb other hother id hid hid'
      rw [← (hentry hk hid).mp (hall kspec hk bspec hb),
        (hentry hk hid').mp (hall kspec hk other hother)]
    · intro hagree kspec hk bspec hb
      cases hid : w.cluster.idOf bspec.name with
      | none => exact absurd hid (hkeys.known kspec hk bspec hb)
      | some id =>
        exact (hentry hk hid).mpr (grant_of_declared hnames hkeys hrun hk hb hid
          fun other hother hid' => hagree kspec hk bspec hb other hother id hid hid')
  have hchanged : (keys_planned host a w' desired_keys key_creds ids').changed = false ↔
      env_to_write host a desired_keys key_creds w' = [] ∧
        grant_ops w'.cluster ids' desired_keys = [] := by
    simp [keys_planned, himport]
  rw [do_sync_keys, hplan, quiet_iff, hchanged, hwrite, hgrant, and_comm]

/-! ### Both commands -/

/-- Check mode of both commands is honest, their failures before the plan is complete are
harmless, and after a successful run of either the next one has nothing to do exactly if the spec
does not want two things in one place, and no credential has a carriage return. -/
theorem sync_settles [DecidableEq P] (host : Host P) (b : BucketArgs) (k : KeyArgs)
    (env env' : Env) (w : World P) {desired : List BucketSpec} {desired_keys : List KeySpec}
    {key_creds : String → Credential} (hdesired : b.buckets_json = .ok desired)
    (hspec : key_spec (P := P) k = .ok (desired_keys, key_creds))
    (hbuckets : (desired.map BucketSpec.name).Nodup)
    (hkeys : (desired_keys.map KeySpec.name).Nodup) (hread : ∀ read, env'.read read = true) :
    (Honest (do_sync_buckets host b true env w) (do_sync_buckets host b false env w) w ∧
      (∀ check, Harmless (do_sync_buckets host b check env w) w) ∧
      ((do_sync_buckets host b false env w).outcome.Succeeded →
        (Quiet (do_sync_buckets host b false env' (do_sync_buckets host b false env w).after) ↔
          SameRules host w.cluster desired))) ∧
    Honest (do_sync_keys host k true env w) (do_sync_keys host k false env w) w ∧
      (∀ check, Harmless (do_sync_keys host k check env w) w) ∧
      ((do_sync_keys host k false env w).outcome.Succeeded →
        (Quiet (do_sync_keys host k false env' (do_sync_keys host k false env w).after) ↔
          (∀ kspec ∈ desired_keys, Agreed w.cluster kspec) ∧
            OneBody host k desired_keys key_creds ∧ NoReturns desired_keys key_creds)) := by
  refine ⟨⟨conclude_honest _, fun check => conclude_harmless check _, fun h => ?_⟩,
    conclude_honest _, fun check => conclude_harmless check _, fun h => ?_⟩
  · exact buckets_quiet_iff hdesired hbuckets h hread
  · exact keys_quiet_iff hspec hkeys h hread

/-- A bucket with two names. -/
def twoNames : Cluster where
  buckets := [("1", ⟨["data", "files"], [], []⟩)]
  keys := []
  nodup_buckets := by decide
  nodup_keys := by decide
  known := by decide

/-- The names have different rules. -/
def twoNamesSpec : List BucketSpec :=
  [⟨"data", []⟩, ⟨"files", [⟨["*"], ["GET"], [], [], none, none⟩]⟩]

def twoNamesArgs : BucketArgs := ⟨"token", .ok twoNamesSpec⟩

theorem sync_settles_twoNames :
    (do_sync_buckets plainHost twoNamesArgs false (answeredEnv id)
        ⟨twoNames, fun _ => none⟩).outcome.Succeeded ∧
      (Quiet (do_sync_buckets plainHost twoNamesArgs false (answeredEnv id)
          (do_sync_buckets plainHost twoNamesArgs false (answeredEnv id)
            ⟨twoNames, fun _ => none⟩).after) ↔
        SameRules plainHost twoNames twoNamesSpec) := by
  have hfirst : (do_sync_buckets plainHost twoNamesArgs false (answeredEnv id)
      ⟨twoNames, fun _ => none⟩).outcome = .changed ⟨[], ["files"]⟩ := by
    decide +kernel
  have hsucceeded : (do_sync_buckets plainHost twoNamesArgs false (answeredEnv id)
      ⟨twoNames, fun _ => none⟩).outcome.Succeeded := by
    rw [hfirst]
    exact trivial
  exact ⟨hsucceeded, (sync_settles plainHost twoNamesArgs appArgs (answeredEnv id)
    (answeredEnv id) ⟨twoNames, fun _ => none⟩ rfl oneBucket_spec (by decide) (by decide)
    fun _ => rfl).1.2.2 hsucceeded⟩

/-- A run sets the rules of one name, and the next one those of the other. -/
theorem aliases_disagree :
    (do_sync_buckets plainHost twoNamesArgs false (answeredEnv id)
        ⟨twoNames, fun _ => none⟩).outcome.Succeeded ∧
      ¬ Quiet (do_sync_buckets plainHost twoNamesArgs false (answeredEnv id)
        (do_sync_buckets plainHost twoNamesArgs false (answeredEnv id)
          ⟨twoNames, fun _ => none⟩).after) := by
  have hfirst : (do_sync_buckets plainHost twoNamesArgs false (answeredEnv id)
      ⟨twoNames, fun _ => none⟩).outcome = .changed ⟨[], ["files"]⟩ := by
    decide +kernel
  have hnext : (do_sync_buckets plainHost twoNamesArgs false (answeredEnv id)
      (do_sync_buckets plainHost twoNamesArgs false (answeredEnv id)
        ⟨twoNames, fun _ => none⟩).after).outcome = .changed ⟨[], ["data"]⟩ := by
    decide +kernel
  constructor
  · rw [hfirst]
    exact trivial
  · exact fun hquiet => nomatch hnext.symm.trans hquiet.1

end Garage
