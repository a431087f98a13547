/-
What one run makes of the entries of the application portal.

* `run_entries` — the entries after a run: those that are not deleted, updated where an update is
  planned, and those that are created;
* `converged_of` — one entry of every desired key, and no other keyed one, is enough;
* `distinct_of_converged` — entries of one key stay: no run collapses them;
* `apply_run_converges` — a run converges where the live keys are distinct and no update takes a
  key away.
-/
import KrgInfra.AppPortal
import Mathlib.Data.List.Forall2
import Mathlib.Data.List.Perm.Subperm
import Mathlib.Data.List.ReduceOption

namespace AppPortal

open JsonText FullObject EntryLists

variable {R : Runtime} {S : Server} {o : SetOrder} {live desired : List Members}

/-! ### The calls -/

theorem Live.inj (h : Live live) {a b : Members} (ha : a ∈ live) (hb : b ∈ live)
    (huuid : uuid a = uuid b) : a = b :=
  List.inj_on_of_nodup_map h.nodup ha hb huuid

theorem Live.get (h : Live live) {e : Members} (he : e ∈ live) : e.get "UUID" = .str (uuid e) := by
  rw [Members.get, (h.uuid_str e he).2]
  rfl

theorem uuid_of_lookup {e : Members} {u : String} (h : e.lookup "UUID" = some (.str u)) :
    uuid e = u := by
  rw [uuid, Members.get, h]
  rfl

/-- The UUID of a live entry is what `UUID or id` is. -/
theorem Live.luid (h : Live live) {e : Members} (he : e ∈ live) :
    orElse (e.get "UUID") (e.get "id") = .str (uuid e) := by
  rw [orElse, h.get he, if_pos]
  exact decide_eq_true (h.uuid_str e he).1

theorem Live.del_key (h : Live live) {e : Members} (he : e ∈ live) :
    del_key e = some ("UUID", .str (uuid e)) := by
  rw [AppPortal.del_key, h.luid he]
  rfl

theorem Live.args (h : Live live) {u : Update} (hu : u.live ∈ live)
    (hd : "UUID" ∉ u.desired.names) : u.args = u.desired.set "UUID" (.str (uuid u.live)) := by
  rw [Update.args, h.luid hu, decide_eq_true hd]
  rfl

theorem lookup_args (h : Live live) {u : Update} (hu : u.live ∈ live)
    (hd : "UUID" ∉ u.desired.names) (name : String) :
    u.args.lookup name =
      if name = "UUID" then some (.str (uuid u.live)) else u.desired.lookup name := by
  rw [h.args hu hd, Members.lookup_set]

theorem uuid_args (h : Live live) {u : Update} (hu : u.live ∈ live)
    (hd : "UUID" ∉ u.desired.names) : uuid u.args = uuid u.live :=
  uuid_of_lookup (by rw [lookup_args h hu hd, if_pos rfl])

/-- What an update with the UUID of an entry makes of its fields. -/
theorem lookup_merged (h : Live live) {u : Update} (hu : u.live ∈ live)
    (hd : "UUID" ∉ u.desired.names) (hdict : u.desired.names.Nodup) (e : Members) (name : String) :
    (e.update u.args).lookup name =
      if name = "UUID" then some (.str (uuid u.live))
      else (e.update u.desired).lookup name := by
  have hargs : u.args.names.Nodup := by
    rw [h.args hu hd, Members.names_set, if_neg hd, List.nodup_append]
    refine ⟨hdict, List.nodup_singleton _, fun a ha b hb hab => hd ?_⟩
    rw [List.mem_singleton] at hb
    exact hb ▸ hab ▸ ha
  have hmem : name ∈ u.args.names ↔ name = "UUID" ∨ name ∈ u.desired.names := by
    rw [Members.mem_names_iff, lookup_args h hu hd, Members.mem_names_iff]
    split_ifs with hname
    · exact ⟨fun _ => .inl hname, fun _ => Option.some_ne_none _⟩
    · exact ⟨.inr, fun h => h.resolve_left hname⟩
  rw [Members.lookup_update hargs, Members.lookup_update hdict, lookup_args h hu hd]
  simp only [hmem]
  split_ifs with h1 h2 h3 h4
  · rfl
  · rfl
  · exact absurd h1 (not_or.mpr ⟨h2, h3⟩)
  · exact absurd (.inl h4) h1
  · exact absurd (.inr (by assumption)) h1
  · rfl

/-- The desired fields are there after an update. -/
theorem covers_merged (h : Live live) {u : Update} (hu : u.live ∈ live)
    (hd : "UUID" ∉ u.desired.names) (hdict : u.desired.names.Nodup) (e : Members) :
    Covers (e.update u.args) u.desired := by
  refine covers_of fun name value hlookup => ?_
  have hmem : name ∈ u.desired.names := by
    refine Members.mem_names_iff.mpr ?_
    rw [hlookup]
    exact Option.some_ne_none _
  have hne : name ≠ "UUID" := fun he => hd (he ▸ hmem)
  rw [lookup_merged h hu hd hdict, if_neg hne, Members.lookup_update hdict, if_pos hmem, hlookup]

theorem list_key_merged (h : Live live) {u : Update} (hu : u.live ∈ live)
    (hd : "UUID" ∉ u.desired.names) (hdict : u.desired.names.Nodup) (e : Members) :
    list_key R (e.update u.args) = list_key R (e.update u.desired) := by
  refine list_key_congr fun name hname => ?_
  have hne : name ≠ "UUID" := by
    rintro rfl
    exact absurd hname (by decide)
  rw [Members.get, Members.get, lookup_merged h hu hd hdict, if_neg hne]

/-! ### The plan -/

theorem keys_creates : (creates R live desired).filterMap (key R) =
    (Dict.keys (by_key R desired)).filter fun k => decide (k ∉ Dict.keys (by_key R live)) := by
  have hitems : ∀ l : List (Key × Members), (∀ item ∈ l, key R item.2 = some item.1) →
      ((l.filter fun item => decide (item.1 ∉ Dict.keys (by_key R live))).map
          Prod.snd).filterMap (key R) =
        (Dict.keys l).filter fun k => decide (k ∉ Dict.keys (by_key R live)) := by
    intro l
    induction l with
    | nil => exact fun _ => rfl
    | cons item l ih =>
      intro h
      obtain ⟨hitem, hl⟩ := List.forall_mem_cons.mp h
      rw [show Dict.keys (item :: l) = item.1 :: Dict.keys l from rfl, List.filter_cons,
        List.filter_cons, ← ih hl]
      split_ifs
      · rw [List.map_cons, List.filterMap_cons_some hitem]
      · rfl
  refine hitems _ fun item hitem => ?_
  have hlookup : (by_key R desired).lookup item.1 = some item.2 :=
    Dict.lookup_of_mem (nodup_by_key desired) hitem
  exact (lookup_by_key hlookup).2

theorem mem_creates {d : Members} (h : d ∈ creates R live desired) :
    d ∈ desired ∧ Keyed R d = true := by
  obtain ⟨item, hitem, rfl⟩ := List.mem_map.mp h
  have hlookup := Dict.lookup_of_mem (nodup_by_key desired) (List.mem_of_mem_filter hitem)
  obtain ⟨hd, hk⟩ := lookup_by_key hlookup
  exact ⟨hd, keyed_of_key hk⟩

theorem mem_updates {u : Update} : u ∈ updates R o live desired ↔
    ∃ k, (by_key R live).lookup k = some u.live ∧ (by_key R desired).lookup k = some u.desired ∧
      ¬ Covers u.live u.desired := by
  rw [updates, List.mem_filterMap]
  constructor
  · rintro ⟨k, -, hk⟩
    rw [updateOf] at hk
    split at hk
    · rename_i e d he hd
      split_ifs at hk with hcovers
      obtain rfl := Option.some_inj.mp hk
      exact ⟨k, he, hd, hcovers⟩
    · exact nomatch hk
  · rintro ⟨k, he, hd, hcovers⟩
    have hne : ∀ {d : List (Key × Members)} {e : Members}, d.lookup k = some e → k ∈ Dict.keys d :=
      fun h => Dict.mem_keys_iff.mpr (h ▸ Option.some_ne_none _)
    refine ⟨k, ?_, ?_⟩
    · refine (o.perm _).mem_iff.mpr (List.mem_filter.mpr ⟨hne he, decide_eq_true (hne hd)⟩)
    · rw [updateOf, he, hd]
      exact if_neg hcovers

theorem mem_deletes {e : Members} : e ∈ deletes R o live desired ↔
    ∃ k, (by_key R live).lookup k = some e ∧ k ∉ Dict.keys (by_key R desired) := by
  rw [deletes, List.mem_filterMap]
  constructor
  · rintro ⟨k, hk, he⟩
    have hmem := (o.perm _).mem_iff.mp hk
    exact ⟨k, he, of_decide_eq_true (List.mem_filter.mp hmem).2⟩
  · rintro ⟨k, he, hk⟩
    refine ⟨k, (o.perm _).mem_iff.mpr (List.mem_filter.mpr ⟨?_, decide_eq_true hk⟩), he⟩
    exact Dict.mem_keys_iff.mpr (he ▸ Option.some_ne_none _)

theorem live_of_update {u : Update} (h : u ∈ updates R o live desired) : u.live ∈ live := by
  obtain ⟨k, he, -⟩ := mem_updates.mp h
  exact (lookup_by_key he).1

theorem desired_of_update {u : Update} (h : u ∈ updates R o live desired) :
    u.desired ∈ desired := by
  obtain ⟨k, -, hd, -⟩ := mem_updates.mp h
  exact (lookup_by_key hd).1

/-- No two updates are of one entry. -/
theorem nodup_targets (hlive : Live live) (hspec : Spec R desired) :
    ((updates R o live desired).map fun u => uuid u.args).Nodup := by
  have huuid : ((updates R o live desired).map fun u => uuid u.args) =
      (common R o live desired).filterMap fun k =>
        (updateOf R live desired k).map fun u => uuid u.live := by
    rw [← List.map_filterMap]
    refine List.map_congr_left fun u hu => ?_
    exact uuid_args hlive (live_of_update hu) (hspec.no_uuid _ (desired_of_update hu))
  rw [huuid]
  have hcommon : (common R o live desired).Nodup :=
    (o.perm _).nodup_iff.mpr ((nodup_by_key live).filter _)
  refine hcommon.filterMap fun k k' s hk hk' => ?_
  -- updates of one UUID are of one live entry, which has one key
  have hof : ∀ {k : Key}, s ∈ (updateOf R live desired k).map (fun u => uuid u.live) →
      ∃ e ∈ live, key R e = some k ∧ uuid e = s := by
    intro k hk
    obtain ⟨u, hu, hs⟩ := Option.map_eq_some_iff.mp hk
    rw [updateOf] at hu
    split at hu
    · rename_i e d he hd
      split_ifs at hu
      obtain rfl := Option.some_inj.mp hu
      exact ⟨e, (lookup_by_key he).1, (lookup_by_key he).2, hs⟩
    · exact nomatch hu
  obtain ⟨e, he, hek, hes⟩ := hof hk
  obtain ⟨e', he', hek', hes'⟩ := hof hk'
  obtain rfl := hlive.inj he he' (hes.trans hes'.symm)
  exact Option.some_inj.mp (hek.symm.trans hek')

/-- An entry that was created has the key of the one that was sent, and its fields. -/
def Stored (R : Runtime) (d e : Members) : Prop := list_key R e = list_key R d ∧ Covers e d

theorem stored_created {d : Members} (hd : "UUID" ∉ d.names) (u : String) :
    Stored R d (d.set "UUID" (.str u)) := by
  constructor
  · refine list_key_congr fun name hname => ?_
    have hne : name ≠ "UUID" := by
      rintro rfl
      exact absurd hname (by decide)
    rw [Members.get, Members.get, Members.lookup_set, if_neg hne]
  · refine covers_of fun name value hlookup => ?_
    have hne : name ≠ "UUID" := by
      rintro rfl
      exact hd (Members.mem_names_iff.mpr (hlookup ▸ Option.some_ne_none _))
    rw [Members.lookup_set, if_neg hne, hlookup]

/-- What the create calls append. -/
theorem serve_creates : ∀ (cs : List Members) {live : List Members}, Live live → (∀ d ∈ cs, "UUID" ∉ d.names) →
    ∃ new, (cs.map Call.create).foldl S.serve live = live ++ new ∧ Live (live ++ new) ∧
      List.Forall₂ (Stored R) cs new := by
  intro cs
  induction cs with
  | nil =>
    intro live hlive _
    exact ⟨[], (List.append_nil _).symm, (List.append_nil live).symm ▸ hlive, .nil⟩
  | cons d cs ih =>
    intro live hlive hcs
    obtain ⟨hd, hcs⟩ := List.forall_mem_cons.mp hcs
    have hlookup : (d.set "UUID" (.str (S.fresh live))).lookup "UUID" =
        some (.str (S.fresh live)) := by
      rw [Members.lookup_set, if_pos rfl]
    have huuid := uuid_of_lookup hlookup
    have hnext : Live (live ++ [d.set "UUID" (.str (S.fresh live))]) := by
      refine ⟨fun e he => ?_, ?_⟩
      · obtain he | he := List.mem_append.mp he
        · exact hlive.uuid_str e he
        · rw [List.mem_singleton.mp he, huuid]
          exact ⟨S.fresh_ne live, hlookup⟩
      · rw [List.map_append, List.map_singleton, huuid, List.nodup_append]
        refine ⟨hlive.nodup, List.nodup_singleton _, fun a ha b hb hab => S.fresh_new live ?_⟩
        rw [List.mem_singleton] at hb
        exact hb ▸ hab ▸ ha
    obtain ⟨new, hfold, hnew, hstored⟩ := ih hnext hcs
    rw [List.append_assoc, List.singleton_append] at hfold hnew
    exact ⟨_, hfold, hnew, .cons (stored_created hd _) hstored⟩

/-- What the update calls make of an entry. -/
def updated (us : List Update) (e : Members) : Members :=
  us.foldl (change uuid (fun u => uuid u.args) fun u e => e.update u.args) e

theorem serve_updates (us : List Update) (l : List Members) :
    (us.map fun u => Call.update u.args).foldl S.serve l = l.map (updated us) := by
  rw [List.foldl_map]
  exact foldl_map (fun u e => change uuid (fun u => uuid u.args) (fun u e => e.update u.args) e u)
    us l

/-- The delete calls take the entries with their UUIDs. -/
theorem serve_deletes (ds : List Members) {l : List Members} (hl : Live l) :
    (ds.map fun d => Call.delete ("UUID", .str (uuid d))).foldl S.serve l =
      l.filter fun e => decide (uuid e ∉ ds.map uuid) := by
  rw [List.foldl_map]
  refine (foldl_filter (fun d e => !covered (.obj [("UUID", .str (uuid d))]) (.obj e)) ds l).trans ?_
  refine List.filter_congr fun e he => ?_
  rw [Bool.eq_iff_iff, List.all_eq_true, decide_eq_true_iff, List.mem_map, not_exists]
  refine forall_congr' fun d => ?_
  have hiff : covered (.obj [("UUID", .str (uuid d))]) (.obj e) = true ↔ uuid d = uuid e := by
    rw [covered_str, (hl.uuid_str e he).2, Option.some_inj, Json.str.injEq, eq_comm]
  rw [not_and, Bool.not_eq_true', ← Bool.not_eq_true, hiff]

/-- An entry is updated once. -/
theorem updated_of_mem (hlive : Live live) (hspec : Spec R desired) {u : Update}
    (hu : u ∈ updates R o live desired) :
    updated (updates R o live desired) u.live = u.live.update u.args ∧
      uuid (u.live.update u.args) = uuid u.live := by
  have hmem := live_of_update hu
  have hd := desired_of_update hu
  have hsame : uuid (u.live.update u.args) = uuid u.live := by
    refine uuid_of_lookup ?_
    rw [lookup_merged hlive hmem (hspec.no_uuid _ hd) (hspec.dict _ hd), if_pos rfl]
  refine ⟨?_, hsame⟩
  exact foldl_target hsame (nodup_targets hlive hspec) hu
    (uuid_args hlive hmem (hspec.no_uuid _ hd)).symm

/-- What an update makes of an entry is planned for it. -/
theorem updated_cases (hlive : Live live) (hspec : Spec R desired) {new : List Members}
    (hnew : Live (live ++ new)) {e : Members} (he : e ∈ live ++ new) :
    (∃ u ∈ updates R o live desired, u.live = e ∧
      updated (updates R o live desired) e = e.update u.args ∧
      uuid (e.update u.args) = uuid e) ∨
    updated (updates R o live desired) e = e ∧
      ∀ u ∈ updates R o live desired, u.live ≠ e := by
  have htarget : ∀ u ∈ updates R o live desired, uuid u.args = uuid u.live := fun u hu =>
    uuid_args hlive (live_of_update hu) (hspec.no_uuid _ (desired_of_update hu))
  by_cases hmem : uuid e ∈ (updates R o live desired).map fun u => uuid u.args
  · obtain ⟨u, hu, huuid⟩ := List.mem_map.mp hmem
    have heq : u.live = e := by
      refine hnew.inj (List.mem_append_left _ (live_of_update hu)) he ?_
      rw [← htarget u hu, huuid]
    subst heq
    exact .inl ⟨u, hu, rfl, updated_of_mem hlive hspec hu⟩
  · refine .inr ⟨foldl_of_not_mem hmem, fun u hu heq => hmem ?_⟩
    exact List.mem_map.mpr ⟨u, hu, by rw [htarget u hu, heq]⟩

/-- The entries that a run does not delete. -/
def survivors (R : Runtime) (o : SetOrder) (live desired : List Members) : List Members :=
  live.filter fun e => decide (uuid e ∉ (deletes R o live desired).map uuid)

theorem calls_eq (hlive : Live live) :
    Plan.calls ⟨creates R live desired, updates R o live desired,
      deletes R o live desired⟩ =
    (creates R live desired).map .create ++
      (updates R o live desired).map (fun u => .update u.args) ++
      (deletes R o live desired).map fun d => .delete ("UUID", .str (uuid d)) := by
  have hdeletes : ∀ ds : List Members, (∀ d ∈ ds, d ∈ live) →
      (((ds.map del_key).takeWhile Option.isSome).reduceOption.map Call.delete) =
        ds.map fun d => Call.delete ("UUID", .str (uuid d)) := by
    intro ds
    induction ds with
    | nil => exact fun _ => rfl
    | cons d ds ih =>
      intro h
      obtain ⟨hd, hds⟩ := List.forall_mem_cons.mp h
      rw [List.map_cons, hlive.del_key hd, List.takeWhile_cons_of_pos rfl,
        List.reduceOption_cons_of_some, List.map_cons, ih hds, List.map_cons]
  rw [Plan.calls, hdeletes]
  intro d hd
  obtain ⟨k, hk, -⟩ := mem_deletes.mp hd
  exact (lookup_by_key hk).1

/-- The entries after a run. -/
theorem run_entries (hlive : Live live) (hspec : Spec R desired)
    (hhash : Hashable R live ∧ Hashable R desired) :
    ∃ new, apply_run R S o live desired =
        some ((survivors R o live desired).map (updated (updates R o live desired)) ++ new) ∧
      Live (live ++ new) ∧ List.Forall₂ (Stored R) (creates R live desired) new := by
  obtain ⟨new, hcreates, hnew, hstored⟩ := serve_creates (S := S) (R := R)
    (creates R live desired) hlive fun d hd => hspec.no_uuid d (mem_creates hd).1
  refine ⟨new, ?_, hnew, hstored⟩
  set us := updates R o live desired with hus
  set ds := deletes R o live desired with hds
  have huuid : ∀ e ∈ live ++ new, uuid (updated us e) = uuid e := by
    intro e he
    obtain ⟨u, -, -, hupdated, hsame⟩ | ⟨hupdated, -⟩ := updated_cases hlive hspec hnew he
    · rw [hus, hupdated, hsame]
    · rw [hus, hupdated]
  have hafter : Live ((live ++ new).map (updated us)) := by
    constructor
    · intro e' he'
      obtain ⟨e, he, rfl⟩ := List.mem_map.mp he'
      obtain ⟨hne, hlookup⟩ := hnew.uuid_str e he
      obtain ⟨u, hu, heq, hupdated, hsame⟩ | ⟨hupdated, -⟩ :=
        updated_cases (o := o) hlive hspec hnew he
      · rw [hus, hupdated, hsame]
        refine ⟨hne, ?_⟩
        rw [lookup_merged hlive (live_of_update hu) (hspec.no_uuid _ (desired_of_update hu))
          (hspec.dict _ (desired_of_update hu)), if_pos rfl, heq]
      · rw [hus, hupdated]
        exact ⟨hne, hlookup⟩
    · rw [List.map_map, List.map_congr_left (g := uuid) (f := uuid ∘ updated us) huuid]
      exact hnew.nodup
  -- what was created is neither updated nor deleted
  have hlive_of_delete : ∀ d ∈ ds, d ∈ live := by
    intro d hd
    obtain ⟨k, hk, -⟩ := mem_deletes.mp hd
    exact (lookup_by_key hk).1
  have hapart : ∀ e ∈ new, ∀ d ∈ live, uuid d ≠ uuid e := by
    intro e he d hd
    have hnodup := hnew.nodup
    rw [List.map_append, List.nodup_append] at hnodup
    exact hnodup.2.2 _ (List.mem_map_of_mem hd) _ (List.mem_map_of_mem he)
  have hcreated : new.map (updated us) = new := by
    refine (List.map_congr_left fun e he => ?_).trans (List.map_id new)
    obtain ⟨u, hu, heq, -⟩ | ⟨hupdated, -⟩ :=
      updated_cases (o := o) hlive hspec hnew (List.mem_append_right live he)
    · exact absurd (congrArg uuid heq) (hapart e he _ (live_of_update hu))
    · exact hupdated
  rw [apply_run, diff_lists, if_pos hhash, Option.map_some, Option.some_inj, calls_eq hlive,
    List.foldl_append, List.foldl_append, hcreates, serve_updates, serve_deletes _ hafter,
    List.map_append, List.filter_append, hcreated, List.filter_map, survivors]
  congr 1
  · refine congrArg _ (List.filter_congr fun e he => ?_)
    show decide (uuid (updated us e) ∉ _) = _
    rw [huuid e (List.mem_append_left _ he)]
  · refine List.filter_eq_self.mpr fun e he => decide_eq_true fun hmem => ?_
    obtain ⟨d, hd, hde⟩ := List.mem_map.mp hmem
    exact hapart e he d (hlive_of_delete d hd) hde

/-! ### Convergence -/

/-- Entries of one key are one entry, where keys are distinct. -/
theorem eq_of_key {l : List Members} (h : (l.filterMap (key R)).Nodup) {a b : Members} {k : Key}
    (ha : a ∈ l) (hb : b ∈ l) (hak : key R a = some k) (hbk : key R b = some k) : a = b := by
  have hone := (filter_key_eq h ha hak).symm.trans (filter_key_eq h hb hbk)
  exact (List.cons.inj hone).1

/-- Where every keyed entry is a desired one, and every desired one is there, nothing is planned. -/
theorem converged_of (hspec : Spec R desired) (hhash : Hashable R desired)
    (honly : ∀ e ∈ live, Keyed R e = true →
      ∃ d ∈ desired, ∃ k, key R d = some k ∧ key R e = some k ∧ Covers e d)
    (hkeys : (live.filterMap (key R)).Nodup)
    (hall : ∀ d ∈ desired, ∀ k, key R d = some k → ∃ e ∈ live, key R e = some k) :
    Converged R live desired := by
  have hcovers : ∀ e ∈ live, ∀ d ∈ desired, ∀ k, key R e = some k → key R d = some k →
      Covers e d := by
    intro e he d hd k hek hdk
    obtain ⟨d', hd', k', hdk', hek', hcovers⟩ := honly e he (keyed_of_key hek)
    obtain rfl := Option.some_inj.mp (hek.symm.trans hek')
    obtain rfl := eq_of_key hspec.distinct hd hd' hdk hdk'
    exact hcovers
  refine ⟨fun d hd k hk => ?_, fun e he hkeyed => ?_, fun o => ?_⟩
  · obtain ⟨e, he, hek⟩ := hall d hd k hk
    exact ⟨e, filter_key_eq hkeys he hek, hcovers e he d hd k hek hk⟩
  · obtain ⟨d, hd, k, hdk, hek, -⟩ := honly e he hkeyed
    exact ⟨d, hd, k, hdk, hek⟩
  · have hlive : Hashable R live := by
      intro e he hkeyed
      obtain ⟨d, hd, k, -, hek, -⟩ := honly e he hkeyed
      exact hek ▸ Option.some_ne_none k
    have hmem : ∀ k, k ∈ Dict.keys (by_key R live) ↔ k ∈ Dict.keys (by_key R desired) := by
      intro k
      rw [keys_by_key, keys_by_key]
      constructor
      · rintro ⟨e, he, hek⟩
        obtain ⟨d, hd, k', hdk, hek', -⟩ := honly e he (keyed_of_key hek)
        exact ⟨d, hd, hdk.trans (hek'.symm.trans hek)⟩
      · rintro ⟨d, hd, hdk⟩
        exact hall d hd k hdk
    have hcreates : creates R live desired = [] := by
      rw [creates, List.filter_eq_nil_iff.mpr]
      · rfl
      · intro item hitem hnot
        exact of_decide_eq_true hnot ((hmem _).mpr (List.mem_map_of_mem hitem))
    have hupdates : updates R o live desired = [] := by
      refine List.eq_nil_iff_forall_not_mem.mpr fun u hu => ?_
      obtain ⟨k, he, hd, hnot⟩ := mem_updates.mp hu
      exact hnot (hcovers _ (lookup_by_key he).1 _ (lookup_by_key hd).1 k (lookup_by_key he).2
        (lookup_by_key hd).2)
    have hdeletes : deletes R o live desired = [] := by
      refine List.eq_nil_iff_forall_not_mem.mpr fun e he => ?_
      obtain ⟨k, hk, hnot⟩ := mem_deletes.mp he
      exact hnot ((hmem k).mp (Dict.mem_keys_iff.mpr (hk ▸ Option.some_ne_none _)))
    rw [diff_lists, if_pos ⟨hlive, hhash⟩, hcreates, hupdates, hdeletes]

/-- An update is planned for a live entry and the desired one of its key. -/
structure Planned (R : Runtime) (live desired : List Members) (e d : Members) (k : Key) : Prop where
  live : e ∈ live
  desired : d ∈ desired
  live_key : key R e = some k
  desired_key : key R d = some k
  uncovered : ¬ Covers e d

/-- After the planned updates some entry has the key and the fields of every desired one; it is
another one than before only if updates exchange keys. -/
def KeepsKeys (R : Runtime) (live desired : List Members) : Prop :=
  ∀ e d k, Planned R live desired e d k → ∃ e' d' k', Planned R live desired e' d' k' ∧
    key R (e'.update d') = some k ∧ Covers (e'.update d') d

/-- Updates that leave every entry its key. -/
theorem keepsKeys_of_key (hspec : Spec R desired)
    (h : ∀ e d k, Planned R live desired e d k → key R (e.update d) = some k) :
    KeepsKeys R live desired := by
  intro e d k hplanned
  refine ⟨e, d, k, hplanned, h e d k hplanned, covers_of fun name value hlookup => ?_⟩
  have hmem : name ∈ d.names := Members.mem_names_iff.mpr (hlookup ▸ Option.some_ne_none _)
  rw [Members.lookup_update (hspec.dict d hplanned.desired), if_pos hmem, hlookup]

/-- An entry that is keyed by its frontend keeps its key: the frontend is sent whole. -/
theorem keepsKeys_of_fqdn (hspec : Spec R desired)
    (h : ∀ d ∈ desired, (fqdn d).truthy = true) : KeepsKeys R live desired := by
  refine keepsKeys_of_key hspec fun e d k hplanned => ?_
  have hd := hplanned.desired
  have hmem : "frontend" ∈ d.names := by
    refine Members.mem_names_iff.mpr fun hnone => ?_
    have hfqdn := h d hd
    rw [fqdn, Members.get, hnone] at hfqdn
    exact absurd hfqdn Bool.false_ne_true
  have hget : (e.update d).get "frontend" = d.get "frontend" := by
    rw [Members.get, Members.lookup_update (hspec.dict d hd), if_pos hmem, Members.get]
  have hfqdn : fqdn (e.update d) = fqdn d := by rw [fqdn, fqdn, hget]
  have hport : port (e.update d) = port d := by rw [port, port, hget]
  rw [key_congr (b := d), hplanned.desired_key]
  rw [list_key, list_key, hfqdn, hport, if_pos (h d hd), if_pos (h d hd)]

theorem planned_of_update {u : Update} (h : u ∈ updates R o live desired) :
    ∃ k, Planned R live desired u.live u.desired k := by
  obtain ⟨k, he, hd, hcovers⟩ := mem_updates.mp h
  exact ⟨k, (lookup_by_key he).1, (lookup_by_key hd).1, (lookup_by_key he).2,
    (lookup_by_key hd).2, hcovers⟩

theorem update_of_planned (hspec : Spec R desired) (hkeys : (live.filterMap (key R)).Nodup)
    {e d : Members} {k : Key} (h : Planned R live desired e d k) :
    ⟨e, d⟩ ∈ updates R o live desired := by
  obtain ⟨e', he'⟩ := exists_lookup_by_key h.live h.live_key
  obtain ⟨d', hd'⟩ := exists_lookup_by_key h.desired h.desired_key
  obtain rfl := eq_of_key hkeys (lookup_by_key he').1 h.live (lookup_by_key he').2 h.live_key
  obtain rfl := eq_of_key hspec.distinct (lookup_by_key hd').1 h.desired (lookup_by_key hd').2
    h.desired_key
  exact mem_updates.mpr ⟨k, he', hd', h.uncovered⟩

/-- The entry of one update takes the key of another, with its fields. -/
def Takes (R : Runtime) (u v : Update) : Prop :=
  key R (v.live.update v.args) = key R u.desired ∧ Covers (v.live.update v.args) u.desired

/-- The sent UUID is no part of a key, and no desired field. -/
theorem takes_iff (hlive : Live live) (hspec : Spec R desired) {u v : Update}
    (hu : u ∈ updates R o live desired) (hv : v ∈ updates R o live desired) :
    Takes R u v ↔ key R (v.live.update v.desired) = key R u.desired ∧
      Covers (v.live.update v.desired) u.desired := by
  have hdesired := desired_of_update hv
  rw [Takes, key_congr (list_key_merged hlive (live_of_update hv) (hspec.no_uuid _ hdesired)
    (hspec.dict _ hdesired) v.live)]
  refine and_congr_right fun _ => covers_congr fun name hname => ?_
  have hne : name ≠ "UUID" := fun he => hspec.no_uuid _ (desired_of_update hu) (he ▸ hname)
  rw [lookup_merged hlive (live_of_update hv) (hspec.no_uuid _ hdesired) (hspec.dict _ hdesired),
    if_neg hne]

/-- Every updated entry takes the key of one planned entry, and no two take one key. -/
theorem exists_taken (hlive : Live live) (hspec : Spec R desired)
    (hkeys : (live.filterMap (key R)).Nodup) (hkeep : KeepsKeys R live desired) :
    ∀ v ∈ updates R o live desired, ∃ u ∈ updates R o live desired, Takes R u v ∧
      ∀ v' ∈ updates R o live desired, Takes R u v' → v' = v := by
  refine exchange ?_ ?_
  · intro a ha b hb v _ hav hbv
    obtain ⟨k, hak⟩ := planned_of_update ha
    obtain ⟨k', hbk⟩ := planned_of_update hb
    have hkey := hak.desired_key.symm.trans (hav.1.symm.trans (hbv.1.trans hbk.desired_key))
    obtain rfl := Option.some_inj.mp hkey
    obtain ⟨e, d⟩ := a
    obtain ⟨e', d'⟩ := b
    obtain rfl := eq_of_key hkeys hak.live hbk.live hak.live_key hbk.live_key
    obtain rfl := eq_of_key hspec.distinct hak.desired hbk.desired hak.desired_key hbk.desired_key
    rfl
  · intro u hu
    obtain ⟨k, hplanned⟩ := planned_of_update hu
    obtain ⟨e', d', k', hplanned', hkey, hcovers⟩ := hkeep _ _ _ hplanned
    have hv := update_of_planned (o := o) hspec hkeys hplanned'
    exact ⟨_, hv, (takes_iff hlive hspec hu hv).mpr ⟨hkey.trans hplanned.desired_key.symm, hcovers⟩⟩

theorem forall₂_filterMap {cs new : List Members} (h : List.Forall₂ (Stored R) cs new) :
    new.filterMap (key R) = cs.filterMap (key R) := by
  induction h with
  | nil => rfl
  | cons hstored _ ih =>
    rw [List.filterMap_cons, List.filterMap_cons, key_congr hstored.1, ih]

/-- What stands for the live entry `e'` after a run: the entry itself where it is covered, or the one
whose update takes its key. -/
structure Stands (R : Runtime) (o : SetOrder) (live desired : List Members) (e e' d : Members)
    (k : Key) : Prop where
  mem_live : e' ∈ live
  mem_desired : d ∈ desired
  live_key : key R e' = some k
  desired_key : key R d = some k
  stands_key : key R (updated (updates R o live desired) e) = some k
  covers : Covers (updated (updates R o live desired) e) d
  place : Covers e' d ∧ e = e' ∨ ∃ u ∈ updates R o live desired, u.live = e' ∧
    ∃ v ∈ updates R o live desired, v.live = e ∧ Takes R u v ∧
      ∀ v' ∈ updates R o live desired, Takes R u v' → v' = v

theorem survivor (hlive : Live live) (hspec : Spec R desired)
    (hhash : Hashable R live) (hkeys : (live.filterMap (key R)).Nodup)
    (hkeep : KeepsKeys R live desired) {new : List Members} (hnew : Live (live ++ new))
    {e : Members} (he : e ∈ survivors R o live desired)
    (hkeyed : Keyed R (updated (updates R o live desired) e) = true) :
    ∃ e' d k, Stands R o live desired e e' d k := by
  obtain ⟨he, hstays⟩ := List.mem_filter.mp he
  obtain ⟨v, hv, rfl, hupdated, -⟩ | ⟨hupdated, hnot⟩ :=
    updated_cases (o := o) hlive hspec hnew (List.mem_append_left _ he)
  · obtain ⟨u, hu, htakes, hunique⟩ := exists_taken hlive hspec hkeys hkeep v hv
    obtain ⟨k, hplanned⟩ := planned_of_update hu
    refine ⟨u.live, u.desired, k, hplanned.live, hplanned.desired, hplanned.live_key,
      hplanned.desired_key, ?_, ?_, .inr ⟨u, hu, rfl, v, hv, rfl, htakes, hunique⟩⟩
    · rw [hupdated, htakes.1, hplanned.desired_key]
    · rw [hupdated]
      exact htakes.2
  · rw [hupdated] at hkeyed
    obtain ⟨k, hek⟩ := Option.ne_none_iff_exists'.mp (hhash e he hkeyed)
    obtain ⟨e', hlookup⟩ := exists_lookup_by_key he hek
    obtain rfl := eq_of_key hkeys (lookup_by_key hlookup).1 he (lookup_by_key hlookup).2 hek
    by_cases hk : k ∈ Dict.keys (by_key R desired)
    · obtain ⟨d, hd⟩ := Option.ne_none_iff_exists'.mp (Dict.mem_keys_iff.mp hk)
      have hcovers : Covers e' d := by
        by_contra hcovers
        exact hnot ⟨e', d⟩ (mem_updates.mpr ⟨k, hlookup, hd, hcovers⟩) rfl
      exact ⟨e', d, k, he, (lookup_by_key hd).1, hek, (lookup_by_key hd).2, hupdated.symm ▸ hek,
        hupdated.symm ▸ hcovers, .inl ⟨hcovers, rfl⟩⟩
    · refine absurd ?_ (of_decide_eq_true hstays)
      exact List.mem_map_of_mem (mem_deletes.mpr ⟨k, hlookup, hk⟩)

/-- Entries stay apart. -/
theorem Stands.inj (hspec : Spec R desired) (hkeys : (live.filterMap (key R)).Nodup)
    {a b a' b' d d' : Members} {k : Key} (ha : Stands R o live desired a a' d k)
    (hb : Stands R o live desired b b' d' k) : a = b := by
  obtain rfl := eq_of_key hkeys ha.mem_live hb.mem_live ha.live_key hb.live_key
  obtain rfl := eq_of_key hspec.distinct ha.mem_desired hb.mem_desired ha.desired_key
    hb.desired_key
  -- the one update of an entry is planned for its own key
  have hupdate : ∀ u ∈ updates R o live desired, u.live = a' →
      u.desired = d ∧ ¬ Covers a' d := by
    intro u hu hua
    obtain ⟨k', hplanned⟩ := planned_of_update hu
    have hk := hplanned.live_key.symm.trans (hua ▸ ha.live_key)
    obtain rfl := Option.some_inj.mp hk
    have hd := eq_of_key hspec.distinct hplanned.desired ha.mem_desired hplanned.desired_key
      ha.desired_key
    exact ⟨hd, hd ▸ hua ▸ hplanned.uncovered⟩
  obtain ⟨hcovers, rfl⟩ | ⟨u, hu, hua, v, hv, rfl, htakes, -⟩ := ha.place
  · obtain ⟨-, rfl⟩ | ⟨u, hu, hua, -⟩ := hb.place
    · rfl
    · exact absurd hcovers (hupdate u hu hua).2
  · obtain ⟨hcovers, -⟩ | ⟨w, hw, hwa, v', hv', rfl, htakes', hunique⟩ := hb.place
    · exact absurd hcovers (hupdate u hu hua).2
    · obtain ⟨e, d'⟩ := u
      obtain ⟨e', d''⟩ := w
      obtain rfl : e = e' := hua.trans hwa.symm
      obtain rfl : d' = d'' := (hupdate _ hu hua).1.trans (hupdate _ hw hwa).1.symm
      rw [hunique v hv htakes]

/-- A live entry with a desired key is not deleted. -/
theorem mem_survivors (hlive : Live live) {e d : Members} {k : Key} (he : e ∈ live)
    (hd : d ∈ desired) (hek : key R e = some k) (hdk : key R d = some k) :
    e ∈ survivors R o live desired := by
  refine List.mem_filter.mpr ⟨he, decide_eq_true fun hmem => ?_⟩
  obtain ⟨e', he', huuid⟩ := List.mem_map.mp hmem
  obtain ⟨k', hlookup, hnot⟩ := mem_deletes.mp he'
  obtain rfl := hlive.inj (lookup_by_key hlookup).1 he huuid
  obtain rfl := Option.some_inj.mp (hek.symm.trans (lookup_by_key hlookup).2)
  exact hnot ((keys_by_key desired _).mpr ⟨d, hd, hdk⟩)

/-- A run converges where keys are distinct, and kept. -/
theorem converges_of_distinct (hlive : Live live) (hspec : Spec R desired)
    (hhash : Hashable R live ∧ Hashable R desired) (hkeys : (live.filterMap (key R)).Nodup)
    (hkeep : KeepsKeys R live desired) :
    ∃ after, apply_run R S o live desired = some after ∧ Converged R after desired := by
  obtain ⟨new, hrun, hnew, hstored⟩ := run_entries (S := S) (o := o) hlive hspec hhash
  set us := updates R o live desired with hus
  have hstands := fun e he =>
    survivor (o := o) (e := e) hlive hspec hhash.1 hkeys hkeep hnew he
  refine ⟨_, hrun, converged_of hspec hhash.2 ?_ ?_ ?_⟩
  · intro e he hkeyed
    obtain he | he := List.mem_append.mp he
    · obtain ⟨e', hmem, rfl⟩ := List.mem_map.mp he
      obtain ⟨_, d, k, h⟩ := hstands e' hmem hkeyed
      exact ⟨d, h.mem_desired, k, h.desired_key, h.stands_key, h.covers⟩
    · obtain ⟨d, hd, hde⟩ : ∃ d ∈ creates R live desired, Stored R d e := by
        obtain ⟨i, hi, rfl⟩ := List.mem_iff_getElem.mp he
        have hlength := hstored.length_eq
        exact ⟨_, List.getElem_mem (hlength ▸ hi), hstored.get (hlength ▸ hi) hi⟩
      obtain ⟨hdesired, hkeyed⟩ := mem_creates hd
      obtain ⟨k, hk⟩ := Option.ne_none_iff_exists'.mp (hhash.2 d hdesired hkeyed)
      exact ⟨d, hdesired, k, hk, (key_congr hde.1).trans hk, hde.2⟩
  · rw [List.filterMap_append, forall₂_filterMap hstored, keys_creates, List.nodup_append,
      List.filterMap_map]
    refine ⟨?_, (nodup_by_key desired).filter _, ?_⟩
    · -- entries that get one key stand for one entry
      rw [List.Nodup, List.pairwise_filterMap]
      refine ((List.Nodup.of_map uuid hlive.nodup).filter _).imp_of_mem ?_
      rintro a b ha hb hne k hak k' hbk rfl
      obtain ⟨a', d, k₁, hsa⟩ := hstands a ha (keyed_of_key hak)
      obtain ⟨b', d', k₂, hsb⟩ := hstands b hb (keyed_of_key hbk)
      obtain rfl := Option.some_inj.mp (hak.symm.trans hsa.stands_key)
      obtain rfl := Option.some_inj.mp (hbk.symm.trans hsb.stands_key)
      exact hne (hsa.inj hspec hkeys hsb)
    · rintro k hk k' hk' rfl
      obtain ⟨e, he, hek⟩ := List.mem_filterMap.mp hk
      obtain ⟨e', d, k', h⟩ := hstands e he (keyed_of_key hek)
      obtain rfl := Option.some_inj.mp (hek.symm.trans h.stands_key)
      exact of_decide_eq_true (List.mem_filter.mp hk').2
        ((keys_by_key live _).mpr ⟨e', h.mem_live, h.live_key⟩)
  · intro d hd k hdk
    have hdesired := (keys_by_key desired k).mpr ⟨d, hd, hdk⟩
    by_cases hk : k ∈ Dict.keys (by_key R live)
    · obtain ⟨e, he, hek⟩ := (keys_by_key live k).mp hk
      by_cases hcovers : Covers e d
      · have hsame : updated us e = e := by
          obtain ⟨u, hu, rfl, -⟩ | ⟨hupdated, -⟩ :=
            updated_cases (o := o) hlive hspec hnew (List.mem_append_left _ he)
          · obtain ⟨k', hplanned⟩ := planned_of_update hu
            obtain rfl := Option.some_inj.mp (hplanned.live_key.symm.trans hek)
            have hdesired := eq_of_key hspec.distinct hplanned.desired hd hplanned.desired_key hdk
            exact absurd (hdesired ▸ hcovers) hplanned.uncovered
          · exact hupdated
        refine ⟨updated us e, List.mem_append_left _ ?_, by rw [hsame, hek]⟩
        exact List.mem_map_of_mem (mem_survivors hlive he hd hek hdk)
      · obtain ⟨e', d', k', hplanned, hkey, -⟩ := hkeep e d k ⟨he, hd, hek, hdk, hcovers⟩
        have hv := update_of_planned (o := o) hspec hkeys hplanned
        have hdict := hspec.dict d' hplanned.desired
        have hno := hspec.no_uuid d' hplanned.desired
        refine ⟨updated us e', List.mem_append_left _ ?_, ?_⟩
        · exact List.mem_map_of_mem (mem_survivors hlive hplanned.live hplanned.desired
            hplanned.live_key hplanned.desired_key)
        · have hupdated := (updated_of_mem hlive hspec hv).1
          rw [hus, hupdated, key_congr (list_key_merged hlive hplanned.live hno hdict _), hkey]
    · have hmem : k ∈ new.filterMap (key R) := by
        rw [forall₂_filterMap hstored, keys_creates]
        exact List.mem_filter.mpr ⟨hdesired, decide_eq_true hk⟩
      obtain ⟨e, he, hek⟩ := List.mem_filterMap.mp hmem
      exact ⟨e, List.mem_append_right _ he, hek⟩

/-! ### Entries of one key -/

/-- The keyed entries are as many as the desired ones. -/
theorem Converged.countP_le (h : Converged R live desired) :
    live.countP (Keyed R) ≤ (Dict.keys (by_key R desired)).length := by
  have hlength : live.countP (Keyed R) = (live.filterMap (key R)).length := by
    have hsome : ∀ e ∈ live, Keyed R e = (key R e).isSome := by
      intro e he
      cases hkeyed : Keyed R e with
      | true =>
        obtain ⟨d, -, k, -, hek⟩ := h.only e he hkeyed
        rw [hek]
        rfl
      | false =>
        rw [key, hkeyed]
        rfl
    rw [List.length_filterMap_eq_countP]
    exact List.countP_congr fun e he => by rw [hsome e he]
  have hnodup : (live.filterMap (key R)).Nodup := by
    rw [List.nodup_iff_count_le_one]
    intro k
    by_cases hk : k ∈ live.filterMap (key R)
    · obtain ⟨e, he, hek⟩ := List.mem_filterMap.mp hk
      obtain ⟨d, hd, k', hdk, hek'⟩ := h.only e he (keyed_of_key hek)
      obtain rfl := Option.some_inj.mp (hek.symm.trans hek')
      obtain ⟨e', hone, -⟩ := h.one d hd _ hdk
      have hcount : (live.filterMap (key R)).count k =
          live.countP fun e => decide (key R e = some k) := by
        rw [List.count_filterMap]
        refine List.countP_congr fun e _ => ?_
        rw [beq_iff_eq, decide_eq_true_iff]
      rw [hcount, List.countP_eq_length_filter, hone]
      exact Nat.le_refl 1
    · exact (List.count_eq_zero.mpr hk).le.trans (Nat.zero_le 1)
  have hsubset : live.filterMap (key R) ⊆ Dict.keys (by_key R desired) := by
    intro k hk
    obtain ⟨e, he, hek⟩ := List.mem_filterMap.mp hk
    obtain ⟨d, hd, k', hdk, hek'⟩ := h.only e he (keyed_of_key hek)
    obtain rfl := Option.some_inj.mp (hek.symm.trans hek')
    exact (keys_by_key desired _).mpr ⟨d, hd, hdk⟩
  rw [hlength]
  exact (List.subperm_of_subset hnodup hsubset).length_le

theorem length_filter_add {K : Type} (p : K → Prop) [DecidablePred p] (l : List K) :
    (l.filter fun k => decide (p k)).length + (l.filter fun k => decide (¬ p k)).length =
      l.length := by
  induction l with
  | nil => rfl
  | cons k l ih =>
    by_cases h : p k
    · rw [List.filter_cons_of_pos (by simpa using h), List.filter_cons_of_neg (by simpa using h),
        List.length_cons, List.length_cons, ← ih]
      omega
    · rw [List.filter_cons_of_neg (by simpa using h), List.filter_cons_of_pos (by simpa using h),
        List.length_cons, List.length_cons, ← ih]
      omega

/-- The keys that two lists share are as many in the one as in the other. -/
theorem length_shared {K : Type} [DecidableEq K] {a b : List K} (ha : a.Nodup) (hb : b.Nodup) :
    (a.filter fun k => decide (k ∈ b)).length = (b.filter fun k => decide (k ∈ a)).length := by
  refine ((List.perm_ext_iff_of_nodup (ha.filter _) (hb.filter _)).mpr fun k => ?_).length_eq
  rw [List.mem_filter, List.mem_filter, decide_eq_true_iff, decide_eq_true_iff, and_comm]

/-- What is created is keyed. -/
theorem countP_created {cs new : List Members} (h : List.Forall₂ (Stored R) cs new)
    (hcs : ∀ d ∈ cs, Keyed R d = true) : cs.length = new.countP (Keyed R) := by
  induction h with
  | nil => rfl
  | cons hstored _ ih =>
    obtain ⟨hd, hcs⟩ := List.forall_mem_cons.mp hcs
    have hkeyed : Keyed R _ = true := (congrArg Json.truthy hstored.1).trans hd
    rw [List.length_cons, ih hcs, List.countP_cons_of_pos hkeyed]

/-- Live entries of one key are not collapsed: no run makes keyed entries fewer than it deletes, and
it deletes one of a key at most. -/
theorem distinct_of_converged (hlive : Live live) (hspec : Spec R desired)
    {after : List Members} (hrun : apply_run R S o live desired = some after)
    (hafter : Converged R after desired) :
    (Hashable R live ∧ Hashable R desired) ∧ (live.filterMap (key R)).Nodup := by
  have hhash : Hashable R live ∧ Hashable R desired := by
    by_contra hnot
    rw [apply_run, diff_lists, if_neg hnot] at hrun
    exact nomatch hrun
  refine ⟨hhash, ?_⟩
  obtain ⟨new, hentries, hnew, hstored⟩ := run_entries (S := S) (o := o) hlive hspec hhash
  obtain rfl := Option.some_inj.mp (hrun.symm.trans hentries)
  have hcount := hafter.countP_le
  rw [List.countP_append, ← countP_created hstored fun d hd => (mem_creates hd).2] at hcount
  -- an update leaves an entry keyed, and a deletion takes one at most
  have hupdated : (survivors R o live desired).countP (Keyed R) ≤
      ((survivors R o live desired).map
        (updated (updates R o live desired))).countP (Keyed R) := by
    refine countP_map_le fun e he hkeyed => ?_
    have hmem := List.mem_append_left new (List.mem_of_mem_filter he)
    obtain ⟨u, hu, rfl, hup, -⟩ | ⟨hup, -⟩ := updated_cases (o := o) hlive hspec hnew hmem
    · obtain ⟨k, -, hdk, -⟩ := mem_updates.mp hu
      obtain ⟨hd, hkey⟩ := lookup_by_key hdk
      rw [hup, Keyed, list_key_merged hlive (live_of_update hu) (hspec.no_uuid _ hd)
        (hspec.dict _ hd), ← Keyed]
      exact keyed_update (hspec.dict _ hd) (keyed_of_key hkey)
    · rwa [hup]
  have hdeleted := countP_filter_not_mem (Keyed R) ((deletes R o live desired).map uuid)
    hlive.nodup
  rw [← survivors, List.length_map] at hdeleted
  -- the dictionaries' keys, shared and not
  have hdeletes : (deletes R o live desired).length ≤
      ((Dict.keys (by_key R live)).filter
        fun k => decide (k ∉ Dict.keys (by_key R desired))).length := by
    rw [← (o.perm _).length_eq]
    exact List.length_filterMap_le _ _
  have hcreates : (creates R live desired).length =
      ((Dict.keys (by_key R desired)).filter
        fun k => decide (k ∉ Dict.keys (by_key R live))).length := by
    rw [creates, List.length_map]
    show _ = (((by_key R desired).map Prod.fst).filter _).length
    rw [List.filter_map, List.length_map]
    rfl
  have hshared := length_shared (nodup_by_key (R := R) live) (nodup_by_key (R := R) desired)
  have hl := length_filter_add (· ∈ Dict.keys (by_key R desired)) (Dict.keys (by_key R live))
  have hd := length_filter_add (· ∈ Dict.keys (by_key R live)) (Dict.keys (by_key R desired))
  have hkeyed : live.countP (Keyed R) ≤ (Dict.keys (by_key R live)).length := by omega
  -- as many entries as keys: no two have one
  have hsub : (Dict.keys (by_key R live)).Subperm (live.filterMap (key R)) := by
    refine List.subperm_of_subset (nodup_by_key live) fun k hk => ?_
    obtain ⟨e, he, hek⟩ := (keys_by_key live k).mp hk
    exact List.mem_filterMap.mpr ⟨e, he, hek⟩
  have hlength : (live.filterMap (key R)).length ≤ live.countP (Keyed R) := by
    rw [List.length_filterMap_eq_countP]
    refine List.countP_mono_left fun e _ hsome => ?_
    obtain ⟨k, hk⟩ := Option.isSome_iff_exists.mp hsome
    exact keyed_of_key hk
  exact (hsub.perm_of_length_le (hlength.trans hkeyed)).nodup_iff.mp (nodup_by_key live)

/-- The one entry of the key of a planned update is one that was updated. -/
theorem keepsKeys_of_converged (hlive : Live live) (hspec : Spec R desired)
    (hhash : Hashable R live ∧ Hashable R desired) (hkeys : (live.filterMap (key R)).Nodup)
    {after : List Members} (hrun : apply_run R S o live desired = some after)
    (hafter : Converged R after desired) : KeepsKeys R live desired := by
  intro e d k hplanned
  obtain ⟨new, hentries, hnew, hstored⟩ := run_entries (S := S) (o := o) hlive hspec hhash
  obtain rfl := Option.some_inj.mp (hrun.symm.trans hentries)
  obtain ⟨e', hone, hcovers⟩ := hafter.one d hplanned.desired k hplanned.desired_key
  obtain ⟨hmem, hkey⟩ := List.mem_filter.mp (hone ▸ List.mem_singleton_self e')
  have hkey := of_decide_eq_true hkey
  obtain hmem | hmem := List.mem_append.mp hmem
  · obtain ⟨s, hs, rfl⟩ := List.mem_map.mp hmem
    have hs := List.mem_of_mem_filter hs
    have hu := update_of_planned (o := o) hspec hkeys hplanned
    obtain ⟨v, hv, rfl, hupdated, -⟩ | ⟨hupdated, hnot⟩ :=
      updated_cases (o := o) hlive hspec hnew (List.mem_append_left _ hs)
    · rw [hupdated] at hkey hcovers
      obtain ⟨k', hplanned'⟩ := planned_of_update hv
      have htakes := (takes_iff hlive hspec hu hv).mp ⟨hkey.trans hplanned.desired_key.symm, hcovers⟩
      exact ⟨_, _, k', hplanned', htakes.1.trans hplanned.desired_key, htakes.2⟩
    · -- an entry that is not updated has its own key, which is that of the updated one
      rw [hupdated] at hkey
      have he := eq_of_key hkeys hplanned.live hs hplanned.live_key hkey
      exact absurd he (hnot _ hu)
  · have hcreated := List.mem_filterMap.mpr ⟨e', hmem, hkey⟩
    rw [forall₂_filterMap hstored, keys_creates] at hcreated
    refine absurd ?_ (of_decide_eq_true (List.mem_filter.mp hcreated).2)
    exact (keys_by_key live k).mpr ⟨e, hplanned.live, hplanned.live_key⟩

/-- A run makes of the live entries the desired ones exactly if no two live ones have one key, and
the updates keep the keys. -/
theorem apply_run_converges (R : Runtime) (S : Server) (o : SetOrder)
    {live desired : List Members} (hlive : Live live) (hspec : Spec R desired) :
    (∃ after, apply_run R S o live desired = some after ∧ Converged R after desired) ↔
      (Hashable R live ∧ Hashable R desired) ∧ (live.filterMap (key R)).Nodup ∧
        KeepsKeys R live desired := by
  constructor
  · rintro ⟨after, hrun, hafter⟩
    obtain ⟨hhash, hkeys⟩ := distinct_of_converged hlive hspec hrun hafter
    exact ⟨hhash, hkeys, keepsKeys_of_converged hlive hspec hhash hkeys hrun hafter⟩
  · rintro ⟨hhash, hkeys, hkeep⟩
    exact converges_of_distinct hlive hspec hhash hkeys hkeep

/-! ### Two services -/

/-- A server that counts its UUIDs up. -/
def counting : Server where
  fresh live := String.ofList ('u' :: live.flatMap fun e => (uuid e).toList)
  fresh_ne live h := by
    have hlist := congrArg String.toList h
    rw [String.toList_ofList] at hlist
    exact nomatch hlist
  fresh_new live h := by
    -- it is longer than any other
    obtain ⟨e, he, huuid⟩ := List.mem_map.mp h
    have hlength := congrArg (fun s => s.toList.length) huuid
    have hle : (uuid e).toList.length ≤ (live.flatMap fun e => (uuid e).toList).length := by
      rw [List.flatMap_def]
      have hmem := List.mem_map_of_mem (f := fun e => (uuid e).toList) he
      exact (List.sublist_flatten_of_mem hmem).length_le
    simp only [String.toList_ofList, List.length_cons] at hlength
    omega

def python : Runtime where
  floats := half
  printable := ascii
  lower s := String.ofList (s.toList.map Char.toLower)

def inOrder : SetOrder := ⟨id, fun _ => .rfl⟩

/-- A reverse-proxy entry. -/
def proxy (host : String) (port backend : Json) : Members :=
  [("frontend", .obj [("fqdn", .str host), ("port", port)]), ("backend", backend)]

def withUuid (u : String) (e : Members) : Members := ("UUID", .str u) :: e

theorem forall_two {p : Members → Prop} {a b : Members} (ha : p a) (hb : p b) :
    ∀ e ∈ [a, b], p e :=
  List.forall_mem_cons.mpr ⟨ha, List.forall_mem_singleton.mpr hb⟩

/-- A service with its port as a text, one that is new and one that is not desired. -/
def liveServices : List Members :=
  [withUuid "a" (proxy "S3" (.int 443) (.int 3900)), withUuid "b" (proxy "old" (.int 80) .null)]

def desiredServices : List Members :=
  [proxy "s3" (.str "443") (.int 3900), proxy "lfs" (.int 443) (.int 8090)]

theorem services_converge : ∃ after,
    apply_run python counting inOrder liveServices desiredServices = some after ∧
      Converged python after desiredServices := by
  have hlive : Live liveServices := ⟨forall_two ⟨by decide, rfl⟩ ⟨by decide, rfl⟩, by decide⟩
  have hspec : Spec python desiredServices := ⟨by decide, by decide, by decide⟩
  refine (apply_run_converges python counting inOrder hlive hspec).mpr ⟨?_, ?_, ?_⟩
  · exact ⟨by decide, by decide⟩
  · decide
  · exact keepsKeys_of_fqdn hspec (by decide)

/-- Two entries for one name. -/
def doubled : List Members :=
  [withUuid "a" (proxy "s3" (.int 443) (.int 3900)), withUuid "b" (proxy "s3" (.int 443) .null)]

/-- One of two entries of a key stays, even where none is desired. -/
theorem doubled_not_converged : ¬ ∃ after,
    apply_run python counting inOrder doubled [] = some after ∧ Converged python after [] := by
  have hlive : Live doubled := ⟨forall_two ⟨by decide, rfl⟩ ⟨by decide, rfl⟩, by decide⟩
  rintro ⟨after, hrun, hafter⟩
  have hkeys := (distinct_of_converged hlive ⟨by decide, by decide, by decide⟩ hrun hafter).2
  exact absurd hkeys (by decide)

end AppPortal
