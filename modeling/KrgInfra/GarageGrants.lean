/-
The grants of Garage's access keys after `sync-keys`.

The grants are planned from the buckets that a key declares: what a key has on another bucket
is neither read nor revoked.

* `key_plan_ok`, `keys_synced` — what a plan was made from, and what it leaves of the keys;
* `grants_written`, `grant_of_declared`, `grant_of_undeclared` — what it does to a permission;
* `Exact`, `grants_exact_iff` — the grants of a key are the declared ones exactly if its entries
  for one bucket agree, and it had nothing on the buckets that it does not declare.
-/
import KrgInfra.GarageSync

namespace Garage

open Registers

variable {P π : Type}

/-! ### Plans -/

theorem bind_ok {ε α β : Type} {x : Except ε α} {f : α → Except ε β} {b : β} :
    x >>= f = .ok b ↔ ∃ a, x = .ok a ∧ f a = .ok b := by
  cases x with
  | error e => exact ⟨fun h => (nomatch h), fun ⟨_, h, _⟩ => (nomatch h)⟩
  | ok a => exact ⟨fun h => ⟨a, rfl, h⟩, fun ⟨_, ha, h⟩ => Except.ok.inj ha ▸ h⟩

theorem refuse_ok {o : Option (Failure P)} : refuse o = .ok () ↔ o = none := by
  cases o with
  | none => exact ⟨fun _ => rfl, fun _ => rfl⟩
  | some failure => exact ⟨fun h => (nomatch h), fun h => (nomatch h)⟩

/-- A check that is passed. -/
theorem refuse_bind {α : Type} {o : Option (Failure P)} {x : Except (Failure P) α} {a : α} :
    (refuse o >>= fun _ => x) = .ok a ↔ o = none ∧ x = .ok a := by
  rw [bind_ok]
  exact ⟨fun ⟨_, ho, hx⟩ => ⟨refuse_ok.mp ho, hx⟩, fun ⟨ho, hx⟩ => ⟨(), refuse_ok.mpr ho, hx⟩⟩

theorem ite_none_some {α : Type} {p : Prop} [Decidable p] {a : α} :
    (if p then none else some a) = none ↔ p := by
  by_cases hp : p
  · simp [hp]
  · simp [hp]

/-- A run that has succeeded. -/
def Outcome.Succeeded : Outcome P π → Prop
  | .no_change => True
  | .changed _ => True
  | _ => False

/-- A successful run has made a plan and carried it out; one without changes has no calls that
would change anything. -/
theorem conclude_succeeded [DecidableEq P] {env : Env} {w : World P}
    {x : Except (Failure P) (Plan P π)}
    (hquiet : ∀ plan, x = .ok plan → plan.changed = false → runs Call.run plan.calls w = some w)
    (h : (conclude false env w x).outcome.Succeeded) :
    ∃ plan, x = .ok plan ∧ runs Call.run plan.calls w = some (conclude false env w x).after := by
  cases x with
  | error failure => exact h.elim
  | ok plan =>
    refine ⟨plan, rfl, ?_⟩
    rw [conclude] at h ⊢
    by_cases hchanged : plan.changed = false
    · rw [if_pos hchanged]
      exact hquiet plan rfl hchanged
    · rw [if_neg hchanged, if_neg Bool.false_ne_true] at h ⊢
      refine runs_of_perform ?_
      cases hfailed : (perform Call.run env.call plan.calls w).failed with
      | none => rfl
      | some call =>
        dsimp only at h
        rw [hfailed] at h
        exact h.elim

/-- What a plan of `sync-keys` was made from. -/
structure KeysRead (desired_keys : List KeySpec) (key_creds : String → Credential)
    (ids : List (String × String)) (env : Env) (c : Cluster) : Prop where
  buckets : env.read .listBuckets = true
  known : ∀ kspec ∈ desired_keys, ∀ bspec ∈ kspec.buckets, c.idOf bspec.name ≠ none
  keys : env.read .listKeys = true
  table : key_id_by_name (P := P) c.keys = .ok ids
  matching : id_mismatch desired_keys key_creds ids = []
  read : key_unread (P := P) desired_keys ids env = none

/-- The plan that is made from it. -/
def keys_planned (host : Host P) (a : KeyArgs) (w : World P) (desired_keys : List KeySpec)
    (key_creds : String → Credential) (ids : List (String × String)) : Plan P KeyPayload :=
  let to_import := to_import desired_keys ids
  let env_to_write := env_to_write host a desired_keys key_creds w
  let grant_ops := grant_ops w.cluster ids desired_keys
  { payload := ⟨to_import, env_to_write, grant_ops.map GrantOp.payload⟩
    changed := to_import ≠ [] || env_to_write ≠ [] || grant_ops ≠ []
    calls := key_calls host a key_creds ids to_import env_to_write grant_ops }

theorem unknown_bucket_none {desired_keys : List KeySpec} {c : Cluster} :
    unknown_bucket (P := P) desired_keys c = none ↔
      ∀ kspec ∈ desired_keys, ∀ bspec ∈ kspec.buckets, c.idOf bspec.name ≠ none := by
  simp [unknown_bucket, List.findSome?_eq_none_iff]

theorem key_plan_ok {host : Host P} {a : KeyArgs} {env : Env} {w : World P}
    {plan : Plan P KeyPayload} :
    key_plan host a env w = .ok plan ↔ ∃ desired_keys key_creds ids,
      key_spec (P := P) a = .ok (desired_keys, key_creds) ∧
      KeysRead (P := P) desired_keys key_creds ids env w.cluster ∧
      plan = keys_planned host a w desired_keys key_creds ids := by
  rw [key_plan, bind_ok]
  constructor
  · rintro ⟨⟨desired_keys, key_creds⟩, hspec, h⟩
    obtain ⟨hbuckets, h⟩ := refuse_bind.mp h
    obtain ⟨hknown, h⟩ := refuse_bind.mp h
    obtain ⟨hkeys, h⟩ := refuse_bind.mp h
    obtain ⟨ids, hids, h⟩ := bind_ok.mp h
    obtain ⟨hmatching, h⟩ := refuse_bind.mp h
    obtain ⟨hread, h⟩ := refuse_bind.mp h
    exact ⟨desired_keys, key_creds, ids, hspec, ⟨ite_none_some.mp hbuckets,
      unknown_bucket_none.mp hknown, ite_none_some.mp hkeys, hids, ite_none_some.mp hmatching,
      hread⟩, (Except.ok.inj h).symm⟩
  · rintro ⟨desired_keys, key_creds, ids, hspec, h, rfl⟩
    exact ⟨_, hspec, refuse_bind.mpr ⟨ite_none_some.mpr h.buckets, refuse_bind.mpr
      ⟨unknown_bucket_none.mpr h.known, refuse_bind.mpr ⟨ite_none_some.mpr h.keys,
        bind_ok.mpr ⟨ids, h.table, refuse_bind.mpr ⟨ite_none_some.mpr h.matching,
          refuse_bind.mpr ⟨h.read, rfl⟩⟩⟩⟩⟩⟩⟩

/-! ### The table of the keys -/

/-- The names of the keys are read without a duplicate. -/
theorem key_id_by_name_ok {keys ids : List (String × String)} :
    key_id_by_name (P := P) keys = .ok ids ↔
      (keys.map Prod.snd).Nodup ∧ ids = keys.map Prod.swap := by
  have hfold : ∀ (l d : List (String × String)), (Dict.keys d).Nodup →
      (l.foldlM (fun d k => if k.2 ∈ Dict.keys d then .error (Failure.duplicate_name (P := P) k.2)
        else Except.ok (Dict.set d k.2 k.1)) d = .ok ids ↔
      (Dict.keys d ++ l.map Prod.snd).Nodup ∧ ids = d ++ l.map Prod.swap) := by
    intro l
    induction l with
    | nil =>
      intro d hd
      rw [List.map_nil, List.map_nil, List.append_nil, List.append_nil]
      exact ⟨fun h => ⟨hd, (Except.ok.inj h).symm⟩, fun h => congrArg _ h.2.symm⟩
    | cons k l ih =>
      intro d hd
      rw [List.foldlM_cons, bind_ok, List.map_cons]
      by_cases hk : k.2 ∈ Dict.keys d
      · rw [if_pos hk]
        constructor
        · rintro ⟨_, h, -⟩
          exact nomatch h
        · rintro ⟨hnodup, -⟩
          exact absurd List.mem_cons_self ((List.disjoint_of_nodup_append hnodup) hk)
      · rw [if_neg hk]
        have hkeys : Dict.keys (Dict.set d k.2 k.1) = Dict.keys d ++ [k.2] := by
          rw [Dict.keys_set, if_neg hk]
        have hih := ih (Dict.set d k.2 k.1) (Dict.nodup_keys_set hd _ _)
        rw [hkeys, Dict.set_of_not_mem hk, List.append_assoc, List.append_assoc,
          List.singleton_append, List.singleton_append] at hih
        rw [Dict.set_of_not_mem hk, List.map_cons]
        exact ⟨fun ⟨_, h, hr⟩ => hih.mp (Except.ok.inj h ▸ hr), fun h => ⟨_, rfl, hih.mpr h⟩⟩
  exact hfold keys [] List.nodup_nil

/-- The id of a name is that of a key with this name. -/
theorem lookup_ids {keys ids : List (String × String)} {name id : String}
    (h : key_id_by_name (P := P) keys = .ok ids) :
    ids.lookup name = some id ↔ (id, name) ∈ keys := by
  obtain ⟨hnodup, rfl⟩ := key_id_by_name_ok.mp h
  have hkeys : (Dict.keys (keys.map Prod.swap)).Nodup := by
    rwa [Dict.keys, List.map_map]
  constructor
  · intro hlookup
    obtain ⟨⟨i, n⟩, hmem, he⟩ := List.mem_map.mp (Dict.mem_of_lookup hlookup)
    obtain ⟨rfl, rfl⟩ := Prod.mk.inj he
    exact hmem
  · exact fun hmem => Dict.lookup_of_mem hkeys (List.mem_map.mpr ⟨_, hmem, rfl⟩)

/-! ### What is left of the keys -/

section Synced

variable [DecidableEq P] {host : Host P} {a : KeyArgs} {env : Env} {w w' : World P}
  {desired_keys : List KeySpec} {key_creds : String → Credential} {ids : List (String × String)}

/-- The keys that are imported come after those that were there. -/
theorem keys_after (h : runs Call.run (keys_planned host a w desired_keys key_creds ids).calls w =
    some w') : w'.cluster.keys = w.cluster.keys ++
      (to_import desired_keys ids).map fun name => ((key_creds name).access_key_id, name) := by
  have hnone : ∀ l : List GrantOp, (l.map fun op => op.call (P := P)
      ((ids.lookup op.key).getD (key_creds op.key).access_key_id)).filterMap imported = [] := by
    intro l
    refine List.filterMap_eq_nil_iff.mpr fun call hcall => ?_
    obtain ⟨op, -, rfl⟩ := List.mem_map.mp hcall
    rw [GrantOp.call]
    cases op.op <;> rfl
  rw [keys_of_runs h]
  refine congrArg _ ?_
  show (key_calls _ _ _ _ _ _ _).filterMap imported = _
  rw [key_calls, List.filterMap_append, List.filterMap_append, hnone, List.filterMap_cons,
    List.filterMap_map, List.filterMap_map, List.append_nil]
  show List.filterMap _ _ ++ List.filterMap (fun _ => none) _ = _
  rw [List.filterMap_none, List.append_nil, ← List.filterMap_eq_map]
  rfl

/-- The buckets of the names stay. -/
theorem idOf_after (h : runs Call.run (keys_planned host a w desired_keys key_creds ids).calls w =
    some w') (name : String) : w'.cluster.idOf name = w.cluster.idOf name := by
  refine (names name).read_of_unwritten (fun call hcall => ?_) h
  obtain hcall | hcall := List.mem_append.mp hcall
  · obtain hcall | hcall := List.mem_append.mp hcall
    · obtain rfl | hcall := List.mem_cons.mp hcall
      · rfl
      · obtain ⟨n, -, rfl⟩ := List.mem_map.mp hcall
        rfl
    · obtain ⟨n, -, rfl⟩ := List.mem_map.mp hcall
      rfl
  · obtain ⟨op, -, rfl⟩ := List.mem_map.mp hcall
    rw [GrantOp.call]
    cases op.op <;> rfl

omit [DecidableEq P] in
/-- A key that is there has the id of its credential. -/
theorem lookup_matching (hread : KeysRead (P := P) desired_keys key_creds ids env w.cluster)
    {kspec : KeySpec} (hk : kspec ∈ desired_keys) {id : String}
    (hid : ids.lookup kspec.name = some id) : id = (key_creds kspec.name).access_key_id := by
  have hnone := List.filterMap_eq_nil_iff.mp hread.matching kspec.name
    (List.mem_map.mpr ⟨kspec, hk, rfl⟩)
  rw [hid] at hnone
  exact ite_none_some.mp hnone

/-- Every declared key is there afterwards, under its id. -/
theorem declared_after (hread : KeysRead (P := P) desired_keys key_creds ids env w.cluster)
    (h : runs Call.run (keys_planned host a w desired_keys key_creds ids).calls w = some w')
    {kspec : KeySpec} (hk : kspec ∈ desired_keys) :
    ((key_creds kspec.name).access_key_id, kspec.name) ∈ w'.cluster.keys := by
  rw [keys_after h, List.mem_append]
  cases hid : ids.lookup kspec.name with
  | some id =>
    rw [← lookup_matching hread hk hid]
    exact .inl ((lookup_ids hread.table).mp hid)
  | none =>
    refine .inr (List.mem_map.mpr ⟨kspec.name, List.mem_filter.mpr ?_, rfl⟩)
    exact ⟨List.mem_map.mpr ⟨kspec, hk, rfl⟩, decide_eq_true hid⟩

/-- Two declared keys have two ids. -/
theorem eq_of_access_key_id (hnames : (desired_keys.map KeySpec.name).Nodup)
    (hread : KeysRead (P := P) desired_keys key_creds ids env w.cluster)
    (h : runs Call.run (keys_planned host a w desired_keys key_creds ids).calls w = some w')
    {k k' : KeySpec} (hk : k ∈ desired_keys) (hk' : k' ∈ desired_keys)
    (hid : (key_creds k.name).access_key_id = (key_creds k'.name).access_key_id) : k = k' := by
  have hlookup := Dict.lookup_of_mem w'.cluster.nodup_keys (declared_after hread h hk)
  rw [hid, Dict.lookup_of_mem w'.cluster.nodup_keys (declared_after hread h hk')] at hlookup
  exact List.inj_on_of_nodup_map hnames hk hk' (Option.some_inj.mp hlookup).symm

/-- What the plan takes for the permissions of a key is what it has; a key that is to be imported
is not there, and has none. -/
theorem current_perms_eq (hread : KeysRead (P := P) desired_keys key_creds ids env w.cluster)
    (h : runs Call.run (keys_planned host a w desired_keys key_creds ids).calls w = some w')
    {kspec : KeySpec} (hk : kspec ∈ desired_keys) (id : String) :
    current_perms w.cluster ids kspec.name id =
      w.cluster.perms id (key_creds kspec.name).access_key_id := by
  rw [current_perms]
  cases hid : ids.lookup kspec.name with
  | some key_id => rw [lookup_matching hread hk hid]
  | none =>
    refine (Cluster.perms_of_unknown (fun hkey => ?_) id).symm
    have hnodup := w'.cluster.nodup_keys
    rw [Dict.keys, keys_after h, List.map_append] at hnodup
    refine (List.disjoint_of_nodup_append hnodup) hkey
      (List.mem_map.mpr ⟨((key_creds kspec.name).access_key_id, kspec.name), ?_, rfl⟩)
    exact List.mem_map.mpr ⟨kspec.name, List.mem_filter.mpr
      ⟨List.mem_map.mpr ⟨kspec, hk, rfl⟩, decide_eq_true hid⟩, rfl⟩

/-! ### What is done to a permission -/

/-- One entry of a key writes a permission exactly if it is about it and would change it, and it
writes what it declares. -/
theorem entry_written (hread : KeysRead (P := P) desired_keys key_creds ids env w.cluster)
    (h : runs Call.run (keys_planned host a w desired_keys key_creds ids).calls w = some w')
    {kspec : KeySpec} (hk : kspec ∈ desired_keys) {bspec : GrantSpec} {bucket : String}
    (hbucket : w.cluster.idOf bspec.name = some bucket) {id key : String} {f : Flag} {v : Bool} :
    (∃ op ∈ entry_ops w.cluster ids kspec bspec, (flag (P := P) id key f).written
        (op.call (key_creds kspec.name).access_key_id) = some v) ↔
      (id = bucket ∧ key = (key_creds kspec.name).access_key_id) ∧
        v = decide (f ∈ declared bspec.permissions) ∧
        v ≠ decide (f ∈ w.cluster.perms bucket (key_creds kspec.name).access_key_id) := by
  simp only [entry_ops, hbucket, Option.getD_some, current_perms_eq hread h hk bucket]
  set D := declared bspec.permissions
  set C := w.cluster.perms bucket (key_creds kspec.name).access_key_id
  constructor
  · rintro ⟨op, hop, hwritten⟩
    obtain hop | hop := List.mem_append.mp hop
    · split_ifs at hop with hempty
      · exact nomatch hop
      obtain rfl := List.mem_singleton.mp hop
      obtain ⟨⟨hat, hf⟩, rfl⟩ : (_ ∧ f ∈ D \ C) ∧ true = v := by simpa [flag, GrantOp.call] using hwritten
      obtain ⟨hD, hC⟩ := Finset.mem_sdiff.mp hf
      exact ⟨hat, (decide_eq_true hD).symm, fun he => hC (of_decide_eq_true he.symm)⟩
    · split_ifs at hop with hempty
      · exact nomatch hop
      obtain rfl := List.mem_singleton.mp hop
      obtain ⟨⟨hat, hf⟩, rfl⟩ : (_ ∧ f ∈ C \ D) ∧ false = v := by simpa [flag, GrantOp.call] using hwritten
      obtain ⟨hC, hD⟩ := Finset.mem_sdiff.mp hf
      exact ⟨hat, (decide_eq_false hD).symm, fun he => of_decide_eq_false he.symm hC⟩
  · rintro ⟨hat, hv, hne⟩
    by_cases hD : f ∈ D
    · obtain rfl : v = true := hv.trans (decide_eq_true hD)
      have hf : f ∈ D \ C := Finset.mem_sdiff.mpr
        ⟨hD, fun hC => hne (decide_eq_true hC).symm⟩
      refine ⟨⟨kspec.name, bspec.name, bucket, .allow, D \ C⟩, List.mem_append_left _ ?_, ?_⟩
      · rw [if_neg (Finset.ne_empty_of_mem hf)]
        exact List.mem_singleton_self _
      · exact if_pos ⟨hat, hf⟩
    · obtain rfl : v = false := hv.trans (decide_eq_false hD)
      have hf : f ∈ C \ D := Finset.mem_sdiff.mpr
        ⟨not_not.mp fun hC => hne (decide_eq_false hC).symm, hD⟩
      refine ⟨⟨kspec.name, bspec.name, bucket, .deny, C \ D⟩, List.mem_append_right _ ?_, ?_⟩
      · rw [if_neg (Finset.ne_empty_of_mem hf)]
        exact List.mem_singleton_self _
      · exact if_pos ⟨hat, hf⟩

/-- The calls write a permission of a key exactly if one of its entries does. -/
theorem grants_written (hnames : (desired_keys.map KeySpec.name).Nodup)
    (hread : KeysRead (P := P) desired_keys key_creds ids env w.cluster)
    (h : runs Call.run (keys_planned host a w desired_keys key_creds ids).calls w = some w')
    {kspec : KeySpec} (hk : kspec ∈ desired_keys) {id : String} {f : Flag} {v : Bool} :
    (∃ call ∈ (keys_planned host a w desired_keys key_creds ids).calls,
        (flag id (key_creds kspec.name).access_key_id f).written call = some v) ↔
      ∃ bspec ∈ kspec.buckets, w.cluster.idOf bspec.name = some id ∧
        v = decide (f ∈ declared bspec.permissions) ∧
        v ≠ decide (f ∈ w.cluster.perms id (key_creds kspec.name).access_key_id) := by
  have hkey : ∀ k ∈ desired_keys,
      (ids.lookup k.name).getD (key_creds k.name).access_key_id =
        (key_creds k.name).access_key_id := by
    intro k hk
    cases hid : ids.lookup k.name with
    | none => rfl
    | some key_id => exact lookup_matching hread hk hid
  have hname : ∀ {k : KeySpec} {b : GrantSpec} {op : GrantOp},
      op ∈ entry_ops w.cluster ids k b → op.key = k.name := by
    intro k b op hop
    rw [entry_ops, List.mem_append] at hop
    obtain hop | hop := hop
    · split_ifs at hop
      · exact nomatch hop
      · rw [List.mem_singleton.mp hop]
    · split_ifs at hop
      · exact nomatch hop
      · rw [List.mem_singleton.mp hop]
  constructor
  · rintro ⟨call, hcall, hwritten⟩
    obtain hcall | hcall := List.mem_append.mp hcall
    · obtain hcall | hcall := List.mem_append.mp hcall
      · obtain rfl | hcall := List.mem_cons.mp hcall
        · exact nomatch hwritten
        · obtain ⟨n, -, rfl⟩ := List.mem_map.mp hcall
          exact nomatch hwritten
      · obtain ⟨n, -, rfl⟩ := List.mem_map.mp hcall
        exact nomatch hwritten
    · obtain ⟨op, hop, rfl⟩ := List.mem_map.mp hcall
      obtain ⟨k, hk', hop⟩ := List.mem_flatMap.mp hop
      obtain ⟨bspec, hb, hop⟩ := List.mem_flatMap.mp hop
      rw [hname hop, hkey k hk'] at hwritten
      cases hid : w.cluster.idOf bspec.name with
      | none => exact absurd hid (hread.known k hk' bspec hb)
      | some bucket =>
        obtain ⟨⟨rfl, heq⟩, hv, hne⟩ := (entry_written hread h hk' hid).mp ⟨op, hop, hwritten⟩
        obtain rfl := eq_of_access_key_id hnames hread h hk hk' heq
        exact ⟨bspec, hb, hid, hv, hne⟩
  · rintro ⟨bspec, hb, hid, hv, hne⟩
    obtain ⟨op, hop, hwritten⟩ := (entry_written hread h hk hid).mpr ⟨⟨rfl, rfl⟩, hv, hne⟩
    refine ⟨_, List.mem_append_right _ (List.mem_map.mpr ⟨op, ?_, rfl⟩), ?_⟩
    · exact List.mem_flatMap.mpr ⟨kspec, hk, List.mem_flatMap.mpr ⟨bspec, hb, hop⟩⟩
    · rw [hname hop, hkey kspec hk]
      exact hwritten

theorem perms_of_flags {id key : String} {s : Finset Flag}
    (h : ∀ f, (flag id key f).read w = decide (f ∈ s)) : w.cluster.perms id key = s :=
  Finset.ext fun f => decide_eq_decide.mp (h f)

/-- Where the entries of a key for one bucket agree, the key has what they declare. -/
theorem grant_of_declared (hnames : (desired_keys.map KeySpec.name).Nodup)
    (hread : KeysRead (P := P) desired_keys key_creds ids env w.cluster)
    (h : runs Call.run (keys_planned host a w desired_keys key_creds ids).calls w = some w')
    {kspec : KeySpec} (hk : kspec ∈ desired_keys) {bspec : GrantSpec} (hb : bspec ∈ kspec.buckets)
    {id : String} (hid : w.cluster.idOf bspec.name = some id)
    (hagree : ∀ other ∈ kspec.buckets, w.cluster.idOf other.name = some id →
      declared other.permissions = declared bspec.permissions) :
    w'.cluster.perms id (key_creds kspec.name).access_key_id = declared bspec.permissions := by
  refine perms_of_flags fun f => (flag id _ f).read_of_agreed (fun call hcall v hv => ?_) h ?_
  · obtain ⟨other, hother, hid', rfl, -⟩ :=
      (grants_written hnames hread h hk).mp ⟨call, hcall, hv⟩
    rw [hagree other hother hid']
  · by_cases hsame : decide (f ∈ declared bspec.permissions) =
        decide (f ∈ w.cluster.perms id (key_creds kspec.name).access_key_id)
    · exact .inl hsame.symm
    · obtain ⟨call, hcall, hv⟩ :=
        (grants_written hnames hread h hk).mpr ⟨bspec, hb, hid, rfl, hsame⟩
      exact .inr ⟨call, hcall, _, hv⟩

/-- A bucket that no entry of a key is about keeps what the key has on it. -/
theorem grant_of_undeclared (hnames : (desired_keys.map KeySpec.name).Nodup)
    (hread : KeysRead (P := P) desired_keys key_creds ids env w.cluster)
    (h : runs Call.run (keys_planned host a w desired_keys key_creds ids).calls w = some w')
    {kspec : KeySpec} (hk : kspec ∈ desired_keys) {id : String}
    (hid : ∀ bspec ∈ kspec.buckets, w.cluster.idOf bspec.name ≠ some id) :
    w'.cluster.perms id (key_creds kspec.name).access_key_id =
      w.cluster.perms id (key_creds kspec.name).access_key_id := by
  refine perms_of_flags fun f => (flag id _ f).read_of_unwritten (fun call hcall => ?_) h
  cases hv : (flag id (key_creds kspec.name).access_key_id f).written call with
  | none => rfl
  | some v =>
    obtain ⟨bspec, hb, hid', -⟩ := (grants_written hnames hread h hk).mp ⟨call, hcall, hv⟩
    exact absurd hid' (hid bspec hb)

end Synced

/-! ### Exact grants -/

/-- A key has what its entries declare, and nothing else. -/
def Exact (c : Cluster) (access_key_id : String) (kspec : KeySpec) : Prop :=
  ∀ id, (∀ bspec ∈ kspec.buckets, c.idOf bspec.name = some id →
      c.perms id access_key_id = declared bspec.permissions) ∧
    ((∀ bspec ∈ kspec.buckets, c.idOf bspec.name ≠ some id) → c.perms id access_key_id = ∅)

/-- The entries of a key for one bucket declare the same permissions. -/
def Agreed (c : Cluster) (kspec : KeySpec) : Prop :=
  ∀ bspec ∈ kspec.buckets, ∀ other ∈ kspec.buckets, ∀ id, c.idOf bspec.name = some id →
    c.idOf other.name = some id → declared other.permissions = declared bspec.permissions

/-- A key has nothing on the buckets that it does not declare. -/
def NoStray (c : Cluster) (access_key_id : String) (kspec : KeySpec) : Prop :=
  ∀ id, (∀ bspec ∈ kspec.buckets, c.idOf bspec.name ≠ some id) → c.perms id access_key_id = ∅

/-- A successful run of `sync-keys` has carried out its plan. -/
theorem sync_keys_succeeded [DecidableEq P] {host : Host P} {a : KeyArgs} {env : Env} {w : World P}
    (h : (do_sync_keys host a false env w).outcome.Succeeded) :
    ∃ desired_keys key_creds ids, key_spec (P := P) a = .ok (desired_keys, key_creds) ∧
      KeysRead (P := P) desired_keys key_creds ids env w.cluster ∧
      runs Call.run (keys_planned host a w desired_keys key_creds ids).calls w =
        some (do_sync_keys host a false env w).after := by
  -- a plan without changes only sees to the directory
  have hquiet : ∀ plan, key_plan host a env w = .ok plan → plan.changed = false →
      runs Call.run plan.calls w = some w := by
    intro plan hplan hchanged
    obtain ⟨desired_keys, key_creds, ids, -, -, rfl⟩ := key_plan_ok.mp hplan
    obtain ⟨⟨himport, hwrite⟩, hgrant⟩ : (to_import desired_keys ids = [] ∧
        env_to_write host a desired_keys key_creds w = []) ∧
          grant_ops w.cluster ids desired_keys = [] := by
      simpa [keys_planned] using hchanged
    show runs Call.run (key_calls _ _ _ _ _ _ _) w = some w
    rw [himport, hwrite, hgrant]
    rfl
  obtain ⟨plan, hplan, hrun⟩ := conclude_succeeded hquiet h
  obtain ⟨desired_keys, key_creds, ids, hspec, hread, rfl⟩ := key_plan_ok.mp hplan
  exact ⟨desired_keys, key_creds, ids, hspec, hread, hrun⟩

/-- After a successful run the declared keys have exactly the declared grants if and only if the
entries of a key for one bucket agree, and the keys had nothing on buckets that they do not
declare. -/
theorem grants_exact_iff [DecidableEq P] {host : Host P} {a : KeyArgs} {env : Env} {w : World P}
    {desired_keys : List KeySpec} {key_creds : String → Credential}
    (hspec : key_spec (P := P) a = .ok (desired_keys, key_creds))
    (hnames : (desired_keys.map KeySpec.name).Nodup)
    (h : (do_sync_keys host a false env w).outcome.Succeeded) :
    (∀ kspec ∈ desired_keys, Exact (do_sync_keys host a false env w).after.cluster
        (key_creds kspec.name).access_key_id kspec) ↔
      ∀ kspec ∈ desired_keys, Agreed w.cluster kspec ∧
        NoStray w.cluster (key_creds kspec.name).access_key_id kspec := by
  obtain ⟨desired, creds, ids, hspec', hread, hrun⟩ := sync_keys_succeeded h
  obtain ⟨rfl, rfl⟩ := Prod.mk.inj (Except.ok.inj (hspec.symm.trans hspec'))
  constructor
  · intro hexact kspec hk
    have hexact := hexact kspec hk
    simp only [Exact, idOf_after hrun] at hexact
    constructor
    · intro bspec hb other hother id hid hid'
      rw [← (hexact id).1 bspec hb hid, (hexact id).1 other hother hid']
    · intro id hid
      rw [← grant_of_undeclared hnames hread hrun hk hid, (hexact id).2 hid]
  · intro hgood kspec hk id
    obtain ⟨hagree, hstray⟩ := hgood kspec hk
    simp only [idOf_after hrun]
    constructor
    · intro bspec hb hid
      exact grant_of_declared hnames hread hrun hk hb hid fun other hother hid' =>
        hagree bspec hb other hother id hid hid'
    · intro hid
      rw [grant_of_undeclared hnames hread hrun hk hid, hstray id hid]

/-! ### A bucket that is taken off a list -/

/-- Everything is answered. -/
def answeredEnv (created : String → String) : Env := ⟨fun _ => true, fun _ => true, created⟩

/-- Files by their paths, and names in lower case. -/
def plainHost : Host String := ⟨id, id⟩

/-- A key that may read two buckets. -/
def twoBuckets : Cluster where
  buckets := [("1", ⟨["data"], [], [("GK1", {.read})]⟩), ("2", ⟨["old"], [], [("GK1", {.read})]⟩)]
  keys := [("GK1", "app")]
  nodup_buckets := by decide
  nodup_keys := by decide
  known := by decide

/-- The spec, after one of them was taken off the list of the key. -/
def oneBucket : List KeySpec := [⟨"app", [⟨"data", ["read"]⟩]⟩]

def appArgs : KeyArgs where
  admin_token := "token"
  keys_json := .ok oneBucket
  credentials := some (.ok fun _ => ⟨"GK1", "secret"⟩)
  keys_dir := "/keys"

theorem oneBucket_spec :
    key_spec (P := String) appArgs = .ok (oneBucket, fun _ => ⟨"GK1", "secret"⟩) := rfl

/-- The file of the key is written, and nothing else is done. -/
theorem oneBucket_changed :
    (do_sync_keys plainHost appArgs false (answeredEnv id) ⟨twoBuckets, fun _ => none⟩).outcome =
      .changed ⟨[], ["app"], []⟩ := by
  decide +kernel

theorem oneBucket_succeeded : (do_sync_keys plainHost appArgs false (answeredEnv id)
    ⟨twoBuckets, fun _ => none⟩).outcome.Succeeded := by
  rw [oneBucket_changed]
  exact trivial

theorem grants_exact_iff_oneBucket :
    (∀ kspec ∈ oneBucket, Exact (do_sync_keys plainHost appArgs false (answeredEnv id)
        ⟨twoBuckets, fun _ => none⟩).after.cluster "GK1" kspec) ↔
      ∀ kspec ∈ oneBucket, Agreed twoBuckets kspec ∧ NoStray twoBuckets "GK1" kspec :=
  grants_exact_iff oneBucket_spec (by decide) oneBucket_succeeded

/-- The grant on the bucket that was taken off is still there after a successful run. -/
theorem removed_not_revoked :
    (do_sync_keys plainHost appArgs false (answeredEnv id)
        ⟨twoBuckets, fun _ => none⟩).outcome.Succeeded ∧
      ¬ ∀ kspec ∈ oneBucket, Exact (do_sync_keys plainHost appArgs false (answeredEnv id)
        ⟨twoBuckets, fun _ => none⟩).after.cluster "GK1" kspec := by
  refine ⟨oneBucket_succeeded, fun hexact => ?_⟩
  have hempty := (hexact _ (List.mem_singleton_self _) "2").2
  have hother : ∀ bspec ∈ [GrantSpec.mk "data" ["read"]], (do_sync_keys plainHost appArgs false
      (answeredEnv id) ⟨twoBuckets, fun _ => none⟩).after.cluster.idOf bspec.name ≠ some "2" := by
    intro bspec hb
    rw [List.mem_singleton.mp hb]
    decide +kernel
  have hread : (do_sync_keys plainHost appArgs false (answeredEnv id)
      ⟨twoBuckets, fun _ => none⟩).after.cluster.perms "2" "GK1" = {.read} := by
    decide +kernel
  rw [hempty hother] at hread
  exact absurd hread (by decide)

end Garage
