/-
Garage, as its admin API shows it, and the files next to it.

* `Cluster` — buckets with their global aliases, CORS rules and grants, and access keys;
* `World`, `Call` — a cluster and the files of the box, and what a command does to them;
* `idOf`, `perms`, `canonical` — what is read: the bucket of a name, the grants of a key, and
  the rules of a bucket in the form in which they are compared;
* `names`, `rules`, `file`, `flag` — each of them as a register of the calls.
-/
import KrgInfra.Dict
import KrgInfra.Registers
import Mathlib.Data.Finset.Basic
import Mathlib.Data.Fintype.Basic

namespace Garage

open Registers

/-- `_PERM_FLAGS` -/
inductive Flag
  | read
  | write
  | owner
  deriving DecidableEq

instance : Fintype Flag where
  elems := {.read, .write, .owner}
  complete f := by cases f <;> decide

/-- A rule of `corsRules`; a list that is absent is `none`. -/
structure ApiRule where
  AllowedOrigin : Option (List String)
  AllowedMethod : Option (List String)
  AllowedHeader : Option (List String)
  ExposeHeader : Option (List String)
  ID : Option String
  MaxAgeSeconds : Option ℤ
  deriving DecidableEq

/-- A bucket, but for its id; `keys` has the permissions of access keys, by their ids. -/
structure Bucket where
  globalAliases : List String
  corsRules : List ApiRule
  keys : List (String × Finset Flag)
  deriving DecidableEq

/-- The buckets, by their ids, and the names of the access keys, by their ids.  A key that is
deleted loses its grants. -/
structure Cluster where
  buckets : List (String × Bucket)
  keys : List (String × String)
  nodup_buckets : (Dict.keys buckets).Nodup
  nodup_keys : (Dict.keys keys).Nodup
  known : ∀ b ∈ buckets, ∀ g ∈ b.2.keys, g.1 ∈ Dict.keys keys

/-! ### What is read -/

namespace Cluster

/-- The global aliases of all buckets. -/
def aliases (c : Cluster) : List (String × String) :=
  c.buckets.flatMap fun b => b.2.globalAliases.map fun name => (name, b.1)

/-- `bucket_id_by_alias` -/
def bucket_id_by_alias (c : Cluster) : List (String × String) :=
  c.aliases.foldl (fun d item => Dict.set d item.1 item.2) []

/-- The id of the bucket that a name is an alias of. -/
def idOf (c : Cluster) (name : String) : Option String := c.bucket_id_by_alias.lookup name

/-- The rules of `GetBucketInfo`. -/
def corsRules (c : Cluster) (id : String) : List ApiRule :=
  ((c.buckets.lookup id).map Bucket.corsRules).getD []

end Cluster

/-- The permissions of a key on a bucket. -/
def Bucket.perms (b : Bucket) (key : String) : Finset Flag := (b.keys.lookup key).getD ∅

namespace Cluster

def perms (c : Cluster) (id key : String) : Finset Flag :=
  ((c.buckets.lookup id).map fun b => b.perms key).getD ∅

end Cluster

/-- `_cors_canonical`, of one rule -/
def canonicalRule (r : ApiRule) : ApiRule where
  AllowedOrigin := some (r.AllowedOrigin.getD [])
  AllowedMethod := some (r.AllowedMethod.getD [])
  AllowedHeader := some (r.AllowedHeader.getD [])
  ExposeHeader := some (r.ExposeHeader.getD [])
  ID := r.ID
  MaxAgeSeconds := r.MaxAgeSeconds

/-- `_cors_canonical(api_rules)` -/
def _cors_canonical (api_rules : List ApiRule) : List ApiRule := api_rules.map canonicalRule

/-! ### Changes of the cluster -/

namespace Cluster

/-- `CreateBucket`; neither the id nor the name may be taken. -/
def create (c : Cluster) (name id : String) : Option Cluster :=
  if h : id ∈ Dict.keys c.buckets ∨ name ∈ Dict.keys c.aliases then none
  else some {
    buckets := Dict.set c.buckets id ⟨[name], [], []⟩
    keys := c.keys
    nodup_buckets := Dict.nodup_keys_set c.nodup_buckets _ _
    nodup_keys := c.nodup_keys
    known := fun b hb g hg => by
      obtain rfl | hb := Dict.mem_set hb
      · exact nomatch hg
      · exact c.known b hb g hg }

/-- A bucket in place of the one with this id. -/
def put (c : Cluster) (id : String) (b : Bucket)
    (hb : ∀ g ∈ b.keys, g.1 ∈ Dict.keys c.keys) : Cluster where
  buckets := Dict.set c.buckets id b
  keys := c.keys
  nodup_buckets := Dict.nodup_keys_set c.nodup_buckets _ _
  nodup_keys := c.nodup_keys
  known := fun b' hb' g hg => by
    obtain rfl | hb' := Dict.mem_set hb'
    · exact hb g hg
    · exact c.known b' hb' g hg

/-- `UpdateBucket`, with `corsRules` -/
def update (c : Cluster) (id : String) (rules : List ApiRule) : Option Cluster :=
  match h : c.buckets.lookup id with
  | none => none
  | some b => some (c.put id { b with corsRules := rules } (c.known _ (Dict.mem_of_lookup h)))

/-- `AllowBucketKey` and `DenyBucketKey`; both the bucket and the key must be there. -/
def grant (c : Cluster) (id key : String) (f : Finset Flag → Finset Flag) : Option Cluster :=
  if hkey : key ∈ Dict.keys c.keys then
    match h : c.buckets.lookup id with
    | none => none
    | some b =>
      some (c.put id { b with keys := Dict.set b.keys key (f (b.perms key)) } fun g hg => by
        obtain rfl | hg := Dict.mem_set hg
        · exact hkey
        · exact c.known _ (Dict.mem_of_lookup h) g hg)
  else none

/-- `ImportKey`; the id may not be taken. -/
def importKey (c : Cluster) (id name : String) : Option Cluster :=
  if h : id ∈ Dict.keys c.keys then none
  else some {
    buckets := c.buckets
    keys := c.keys ++ [(id, name)]
    nodup_buckets := c.nodup_buckets
    nodup_keys := by
      rw [← Dict.set_of_not_mem h]
      exact Dict.nodup_keys_set c.nodup_keys _ _
    known := fun b hb g hg => by
      rw [Dict.keys, List.map_append]
      exact List.mem_append_left _ (c.known b hb g hg) }

end Cluster

/-! ### Calls -/

variable {P : Type}

/-- The cluster, and the texts of the files of the box. -/
structure World (P : Type) where
  cluster : Cluster
  files : P → Option String

/-- What changes something: a request of the admin API with what it has in its body, or a write.
`CreateBucket` comes with the id that is answered. -/
inductive Call (P : Type)
  | createBucket (name id : String)
  | updateBucket (id : String) (corsRules : List ApiRule)
  | importKey (id secret name : String)
  | allowBucketKey (bucket key : String) (permissions : Finset Flag)
  | denyBucketKey (bucket key : String) (permissions : Finset Flag)
  | makedirs (path : String)
  | atomicWrite (path : P) (content : String)
  deriving DecidableEq

/-- A change of the cluster alone. -/
def World.onCluster (w : World P) (c : Option Cluster) : Option (World P) :=
  c.map fun c => { w with cluster := c }

/-- What a call does; `none` where it is refused. -/
def Call.run [DecidableEq P] : Call P → World P → Option (World P)
  | .createBucket name id, w => w.onCluster (w.cluster.create name id)
  | .updateBucket id rules, w => w.onCluster (w.cluster.update id rules)
  | .importKey id _ name, w => w.onCluster (w.cluster.importKey id name)
  | .allowBucketKey id key perms, w => w.onCluster (w.cluster.grant id key (· ∪ perms))
  | .denyBucketKey id key perms, w => w.onCluster (w.cluster.grant id key (· \ perms))
  | .makedirs _, w => some w
  | .atomicWrite path content, w =>
    some { w with files := fun other => if other = path then some content else w.files other }

/-! ### What the changes are -/

namespace Cluster

variable {c d : Cluster} {id name key : String}

theorem create_eq_some (h : c.create name id = some d) :
    id ∉ Dict.keys c.buckets ∧ name ∉ Dict.keys c.aliases ∧ d.keys = c.keys ∧
      d.buckets = Dict.set c.buckets id ⟨[name], [], []⟩ := by
  rw [create] at h
  split_ifs at h with htaken
  obtain ⟨hid, hname⟩ := not_or.mp htaken
  obtain rfl := Option.some_inj.mp h
  exact ⟨hid, hname, rfl, rfl⟩

theorem update_eq_some {rules : List ApiRule} (h : c.update id rules = some d) :
    ∃ b, c.buckets.lookup id = some b ∧ d.keys = c.keys ∧
      d.buckets = Dict.set c.buckets id { b with corsRules := rules } := by
  rw [update] at h
  split at h
  · exact nomatch h
  · next b hb =>
    obtain rfl := Option.some_inj.mp h
    exact ⟨b, hb, rfl, rfl⟩

theorem grant_eq_some {f : Finset Flag → Finset Flag} (h : c.grant id key f = some d) :
    ∃ b, c.buckets.lookup id = some b ∧ d.keys = c.keys ∧
      d.buckets = Dict.set c.buckets id { b with keys := Dict.set b.keys key (f (b.perms key)) } := by
  rw [grant] at h
  split at h
  · split at h
    · exact nomatch h
    · next b hb =>
      obtain rfl := Option.some_inj.mp h
      exact ⟨b, hb, rfl, rfl⟩
  · exact nomatch h

theorem importKey_eq_some (h : c.importKey id name = some d) :
    id ∉ Dict.keys c.keys ∧ d.buckets = c.buckets ∧ d.keys = c.keys ++ [(id, name)] := by
  rw [importKey] at h
  split_ifs at h with hid
  obtain rfl := Option.some_inj.mp h
  exact ⟨hid, rfl, rfl⟩

/-! ### The bucket of a name -/

theorem idOf_congr (h : d.aliases = c.aliases) (name : String) : d.idOf name = c.idOf name := by
  rw [idOf, idOf, bucket_id_by_alias, bucket_id_by_alias, h]

/-- A name is an alias of its bucket. -/
theorem mem_aliases (h : c.idOf name = some id) : (name, id) ∈ c.aliases := by
  have hfold : ∀ (l d : List (String × String)),
      (l.foldl (fun d item => Dict.set d item.1 item.2) d).lookup name = some id →
        (name, id) ∈ l ∨ d.lookup name = some id := by
    intro l
    induction l with
    | nil => exact fun d hd => .inr hd
    | cons item l ih =>
      intro d hd
      obtain hmem | hd := ih _ hd
      · exact .inl (List.mem_cons_of_mem _ hmem)
      · rw [Dict.lookup_set] at hd
        split_ifs at hd with hname
        · obtain rfl := Option.some_inj.mp hd
          exact .inl (hname ▸ List.mem_cons_self)
        · exact .inr hd
  exact (hfold _ [] h).resolve_right fun h => nomatch h

/-- The bucket of a name is there. -/
theorem mem_buckets (h : c.idOf name = some id) : id ∈ Dict.keys c.buckets := by
  obtain ⟨b, hb, hmem⟩ := List.mem_flatMap.mp (mem_aliases h)
  obtain ⟨n, -, he⟩ := List.mem_map.mp hmem
  exact List.mem_map.mpr ⟨b, hb, (Prod.mk.inj he).2⟩

/-- An item of a dictionary that gives the same things with its new value. -/
theorem flatMap_set {β γ : Type} (g : String × β → List γ) {l : List (String × β)} {old new : β}
    (hl : l.lookup id = some old) (hg : g (id, new) = g (id, old)) :
    (Dict.set l id new).flatMap g = l.flatMap g := by
  induction l with
  | nil => exact nomatch hl
  | cons item l ih =>
    obtain ⟨first, value⟩ := item
    rw [Dict.lookup_cons] at hl
    rw [Dict.set]
    by_cases hfirst : first = id
    · rw [if_pos hfirst.symm] at hl
      rw [if_pos hfirst, List.flatMap_cons, List.flatMap_cons, hfirst, hg, Option.some_inj.mp hl]
    · rw [if_neg (Ne.symm hfirst)] at hl
      rw [if_neg hfirst, List.flatMap_cons, List.flatMap_cons, ih hl]

/-- A bucket that keeps its aliases. -/
theorem idOf_set {b b' : Bucket} (hb : c.buckets.lookup id = some b)
    (hd : d.buckets = Dict.set c.buckets id b') (h : b'.globalAliases = b.globalAliases)
    (name : String) : d.idOf name = c.idOf name := by
  refine idOf_congr ?_ name
  rw [aliases, aliases, hd]
  exact flatMap_set _ hb (by rw [h])

theorem idOf_create (h : c.create name id = some d) (other : String) :
    d.idOf other = if other = name then some id else c.idOf other := by
  obtain ⟨hid, -, -, hd⟩ := create_eq_some h
  have haliases : d.aliases = c.aliases ++ [(name, id)] := by
    rw [aliases, hd, Dict.set_of_not_mem hid, List.flatMap_append]
    rfl
  rw [idOf, bucket_id_by_alias, haliases, List.foldl_append]
  exact Dict.lookup_set _ _ _ _

/-! ### Rules and grants -/

theorem lookup_create (h : c.create name id = some d) (other : String) :
    c.buckets.lookup id = none ∧ d.buckets.lookup other =
      if other = id then some ⟨[name], [], []⟩ else c.buckets.lookup other := by
  obtain ⟨hid, -, -, hd⟩ := create_eq_some h
  refine ⟨not_not.mp fun hne => hid (Dict.mem_keys_iff.mpr hne), ?_⟩
  rw [hd, Dict.lookup_set]

/-- A new bucket has no rules, like one that is not there. -/
theorem corsRules_create (h : c.create name id = some d) (other : String) :
    d.corsRules other = c.corsRules other := by
  obtain ⟨hnone, hother⟩ := lookup_create h other
  rw [corsRules, corsRules, hother]
  split_ifs with he
  · rw [he, hnone]
    rfl
  · rfl

theorem perms_create (h : c.create name id = some d) (other key : String) :
    d.perms other key = c.perms other key := by
  obtain ⟨hnone, hother⟩ := lookup_create h other
  rw [perms, perms, hother]
  split_ifs with he
  · rw [he, hnone]
    rfl
  · rfl

theorem corsRules_update {rules : List ApiRule} (h : c.update id rules = some d)
    (other : String) : d.corsRules other = if other = id then rules else c.corsRules other := by
  obtain ⟨b, -, -, hd⟩ := update_eq_some h
  rw [corsRules, corsRules, hd, Dict.lookup_set]
  split_ifs <;> rfl

theorem perms_update {rules : List ApiRule} (h : c.update id rules = some d)
    (other key : String) : d.perms other key = c.perms other key := by
  obtain ⟨b, hb, -, hd⟩ := update_eq_some h
  rw [perms, perms, hd, Dict.lookup_set]
  split_ifs with he
  · rw [he, hb]
    rfl
  · rfl

theorem corsRules_grant {f : Finset Flag → Finset Flag} (h : c.grant id key f = some d)
    (other : String) : d.corsRules other = c.corsRules other := by
  obtain ⟨b, hb, -, hd⟩ := grant_eq_some h
  rw [corsRules, corsRules, hd, Dict.lookup_set]
  split_ifs with he
  · rw [he, hb]
    rfl
  · rfl

theorem perms_grant {f : Finset Flag → Finset Flag} (h : c.grant id key f = some d)
    (bucket holder : String) : d.perms bucket holder =
      if bucket = id ∧ holder = key then f (c.perms bucket holder) else c.perms bucket holder := by
  obtain ⟨b, hb, -, hd⟩ := grant_eq_some h
  rw [perms, perms, hd, Dict.lookup_set]
  by_cases hbucket : bucket = id
  · have hlookup : c.buckets.lookup bucket = some b := hbucket ▸ hb
    rw [if_pos hbucket, hlookup]
    show (List.lookup holder (Dict.set b.keys key (f (b.perms key)))).getD ∅ = _
    rw [Dict.lookup_set]
    by_cases hholder : holder = key
    · rw [if_pos hholder, if_pos ⟨hbucket, hholder⟩, hholder]
      rfl
    · rw [if_neg hholder, if_neg fun h => hholder h.2]
      rfl
  · rw [if_neg hbucket, if_neg fun h => hbucket h.1]

/-- Only a key that is there has grants. -/
theorem perms_of_unknown (hkey : key ∉ Dict.keys c.keys) (id : String) : c.perms id key = ∅ := by
  rw [perms]
  cases hb : c.buckets.lookup id with
  | none => rfl
  | some b =>
    show (b.keys.lookup key).getD ∅ = ∅
    cases hg : b.keys.lookup key with
    | none => rfl
    | some g => exact absurd (c.known _ (Dict.mem_of_lookup hb) _ (Dict.mem_of_lookup hg)) hkey

end Cluster

/-! ### Registers -/

theorem World.onCluster_eq_some {w w' : World P} {c : Option Cluster}
    (h : w.onCluster c = some w') : c = some w'.cluster ∧ w'.files = w.files := by
  obtain ⟨d, hd, rfl⟩ := Option.map_eq_some_iff.mp h
  exact ⟨hd, rfl⟩

variable [DecidableEq P]

/-- The bucket of a name. -/
def names (name : String) : Register (Call.run (P := P)) (Option String) where
  read w := w.cluster.idOf name
  written
    | .createBucket created id => if name = created then some (some id) else none
    | _ => none
  read_step {call w w'} h := by
    cases call with
    | createBucket created id =>
      rw [Cluster.idOf_create (World.onCluster_eq_some h).1]
      dsimp only
      split_ifs <;> rfl
    | updateBucket id rules =>
      obtain ⟨b, hb, -, hd⟩ := Cluster.update_eq_some (World.onCluster_eq_some h).1
      exact Cluster.idOf_set hb hd rfl name
    | importKey id secret key =>
      obtain ⟨-, hd, -⟩ := Cluster.importKey_eq_some (World.onCluster_eq_some h).1
      refine Cluster.idOf_congr ?_ name
      rw [Cluster.aliases, Cluster.aliases, hd]
    | allowBucketKey id key perms =>
      obtain ⟨b, hb, -, hd⟩ := Cluster.grant_eq_some (World.onCluster_eq_some h).1
      exact Cluster.idOf_set hb hd rfl name
    | denyBucketKey id key perms =>
      obtain ⟨b, hb, -, hd⟩ := Cluster.grant_eq_some (World.onCluster_eq_some h).1
      exact Cluster.idOf_set hb hd rfl name
    | makedirs path => exact Option.some_inj.mp h ▸ rfl
    | atomicWrite path content => exact Option.some_inj.mp h ▸ rfl

/-- The rules of a bucket, in the form in which they are compared. -/
def rules (id : String) : Register (Call.run (P := P)) (List ApiRule) where
  read w := _cors_canonical (w.cluster.corsRules id)
  written
    | .updateBucket bucket rules => if bucket = id then some (_cors_canonical rules) else none
    | _ => none
  read_step {call w w'} h := by
    cases call with
    | createBucket name bucket =>
      exact congrArg _ (Cluster.corsRules_create (World.onCluster_eq_some h).1 id)
    | updateBucket bucket rules =>
      rw [Cluster.corsRules_update (World.onCluster_eq_some h).1]
      dsimp only
      by_cases he : bucket = id
      · rw [if_pos he, if_pos he.symm]
        rfl
      · rw [if_neg he, if_neg (Ne.symm he)]
        rfl
    | importKey key secret name =>
      obtain ⟨-, hd, -⟩ := Cluster.importKey_eq_some (World.onCluster_eq_some h).1
      show _cors_canonical _ = _cors_canonical _
      rw [Cluster.corsRules, Cluster.corsRules, hd]
    | allowBucketKey bucket key perms =>
      exact congrArg _ (Cluster.corsRules_grant (World.onCluster_eq_some h).1 id)
    | denyBucketKey bucket key perms =>
      exact congrArg _ (Cluster.corsRules_grant (World.onCluster_eq_some h).1 id)
    | makedirs path => exact Option.some_inj.mp h ▸ rfl
    | atomicWrite path content => exact Option.some_inj.mp h ▸ rfl

/-- The text of a file. -/
def file (path : P) : Register (Call.run (P := P)) (Option String) where
  read w := w.files path
  written
    | .atomicWrite other content => if path = other then some (some content) else none
    | _ => none
  read_step {call w w'} h := by
    cases call with
    | createBucket name id => exact congrFun (World.onCluster_eq_some h).2 path
    | updateBucket id rules => exact congrFun (World.onCluster_eq_some h).2 path
    | importKey id secret name => exact congrFun (World.onCluster_eq_some h).2 path
    | allowBucketKey id key perms => exact congrFun (World.onCluster_eq_some h).2 path
    | denyBucketKey id key perms => exact congrFun (World.onCluster_eq_some h).2 path
    | makedirs path => exact Option.some_inj.mp h ▸ rfl
    | atomicWrite other content =>
      rw [← Option.some_inj.mp h]
      dsimp only
      split_ifs <;> rfl

/-- Whether a key has a permission on a bucket. -/
def flag (id key : String) (f : Flag) : Register (Call.run (P := P)) Bool where
  read w := f ∈ w.cluster.perms id key
  written
    | .allowBucketKey bucket holder perms =>
      if (id = bucket ∧ key = holder) ∧ f ∈ perms then some true else none
    | .denyBucketKey bucket holder perms =>
      if (id = bucket ∧ key = holder) ∧ f ∈ perms then some false else none
    | _ => none
  read_step {call w w'} h := by
    cases call with
    | createBucket name bucket =>
      show decide (f ∈ _) = decide (f ∈ _)
      rw [Cluster.perms_create (World.onCluster_eq_some h).1]
    | updateBucket bucket rules =>
      show decide (f ∈ _) = decide (f ∈ _)
      rw [Cluster.perms_update (World.onCluster_eq_some h).1]
    | importKey imported secret name =>
      obtain ⟨-, hd, -⟩ := Cluster.importKey_eq_some (World.onCluster_eq_some h).1
      show decide (f ∈ _) = decide (f ∈ _)
      rw [Cluster.perms, Cluster.perms, hd]
    | allowBucketKey bucket holder perms =>
      rw [Cluster.perms_grant (World.onCluster_eq_some h).1]
      by_cases hat : id = bucket ∧ key = holder
      · by_cases hf : f ∈ perms
        · simp [hat, hf]
        · simp [hat, hf]
      · simp [hat]
    | denyBucketKey bucket holder perms =>
      rw [Cluster.perms_grant (World.onCluster_eq_some h).1]
      by_cases hat : id = bucket ∧ key = holder
      · by_cases hf : f ∈ perms
        · simp [hat, hf]
        · simp [hat, hf]
      · simp [hat]
    | makedirs path => exact Option.some_inj.mp h ▸ rfl
    | atomicWrite path content => exact Option.some_inj.mp h ▸ rfl

/-! ### New buckets and access keys -/

/-- The id of the bucket that a call adds. -/
def created : Call P → Option String
  | .createBucket _ id => some id
  | _ => none

theorem keys_set_of_lookup {β : Type} {l : List (String × β)} {id : String} {old : β}
    (h : l.lookup id = some old) (new : β) : Dict.keys (Dict.set l id new) = Dict.keys l := by
  rw [Dict.keys_set, if_pos (Dict.mem_keys_iff.mpr (by rw [h]; exact Option.some_ne_none _))]

/-- The new buckets come after those that were there. -/
theorem buckets_of_runs {l : List (Call P)} : ∀ {w w' : World P}, runs Call.run l w = some w' →
    Dict.keys w'.cluster.buckets = Dict.keys w.cluster.buckets ++ l.filterMap created := by
  induction l with
  | nil => exact fun h => Option.some_inj.mp h ▸ (List.append_nil _).symm
  | cons call l ih =>
    intro w w' h
    obtain ⟨u, hu, h⟩ := runs_cons.mp h
    rw [ih h]
    cases call with
    | createBucket name id =>
      obtain ⟨hid, -, -, hd⟩ := Cluster.create_eq_some (World.onCluster_eq_some hu).1
      rw [hd, Dict.keys_set, if_neg hid, List.append_assoc]
      rfl
    | updateBucket id rules =>
      obtain ⟨b, hb, -, hd⟩ := Cluster.update_eq_some (World.onCluster_eq_some hu).1
      rw [hd, keys_set_of_lookup hb]
      rfl
    | importKey id secret name =>
      rw [(Cluster.importKey_eq_some (World.onCluster_eq_some hu).1).2.1]
      rfl
    | allowBucketKey id key perms =>
      obtain ⟨b, hb, -, hd⟩ := Cluster.grant_eq_some (World.onCluster_eq_some hu).1
      rw [hd, keys_set_of_lookup hb]
      rfl
    | denyBucketKey id key perms =>
      obtain ⟨b, hb, -, hd⟩ := Cluster.grant_eq_some (World.onCluster_eq_some hu).1
      rw [hd, keys_set_of_lookup hb]
      rfl
    | makedirs path => exact Option.some_inj.mp hu ▸ rfl
    | atomicWrite path content => exact Option.some_inj.mp hu ▸ rfl

/-- The access key that a call adds. -/
def imported : Call P → Option (String × String)
  | .importKey id _ name => some (id, name)
  | _ => none

/-- The new keys come after those that were there. -/
theorem keys_of_runs {l : List (Call P)} : ∀ {w w' : World P}, runs Call.run l w = some w' →
    w'.cluster.keys = w.cluster.keys ++ l.filterMap imported := by
  induction l with
  | nil => exact fun h => Option.some_inj.mp h ▸ (List.append_nil _).symm
  | cons call l ih =>
    intro w w' h
    obtain ⟨u, hu, h⟩ := runs_cons.mp h
    rw [ih h]
    cases call with
    | createBucket name id =>
      rw [(Cluster.create_eq_some (World.onCluster_eq_some hu).1).2.2.1]
      rfl
    | updateBucket id rules =>
      obtain ⟨b, -, hd, -⟩ := Cluster.update_eq_some (World.onCluster_eq_some hu).1
      rw [hd]
      rfl
    | importKey id secret name =>
      rw [(Cluster.importKey_eq_some (World.onCluster_eq_some hu).1).2.2, List.append_assoc]
      rfl
    | allowBucketKey id key perms =>
      obtain ⟨b, -, hd, -⟩ := Cluster.grant_eq_some (World.onCluster_eq_some hu).1
      rw [hd]
      rfl
    | denyBucketKey id key perms =>
      obtain ⟨b, -, hd, -⟩ := Cluster.grant_eq_some (World.onCluster_eq_some hu).1
      rw [hd]
      rfl
    | makedirs path => exact Option.some_inj.mp hu ▸ rfl
    | atomicWrite path content => exact Option.some_inj.mp hu ▸ rfl

end Garage
