/-
When a run of `do_jobs` settles the Hyper Backup jobs.

A field that is not sent stays as it is: where a live job has a value for a field that is null in
the spec, it differs from the spec for ever.

* `key_touched`, `last_after` — the names of the jobs after the calls of a plan;
* `agrees_of_get`, `get_updated`, `get_created` — their fields;
* `Reconciles`, `Settles` — what a run should do, and when it does;
* `do_jobs_reconciles_iff` — the one is the other.
-/
import KrgInfra.HyperBackupCalls
import Mathlib

namespace ApplyHyperBackup

open Json

variable {S : Sorting} {D : Dsm} {defaults secrets : Members} {desired : List Job}
  {live : List Members}

/-! ### Fields -/

theorem pyEq_null {a : Json} : pyEq a .null = true ↔ a = .null := by
  cases a <;> simp [pyEq, number]

theorem get_flatten {j : Job} {item : String × Json} (h : item ∈ flatten defaults j) :
    (flatten defaults j).get item.1 = item.2 := by
  have hnodup : (Dict.keys (flatten defaults j)).Nodup := by
    show fields.Nodup
    decide
  rw [Members.get, Dict.lookup_of_mem hnodup h]
  rfl

theorem field_of_mem {j : Job} {item : String × Json} (h : item ∈ flatten defaults j) :
    item.1 ∈ fields :=
  List.mem_map_of_mem (f := Prod.fst) h

theorem ne_of_mem_fields {field : String} (h : field ∈ fields) :
    field ≠ "id" ∧ field ≠ "dest_password" := by
  constructor
  · rintro rfl
    exact absurd h (by decide)
  · rintro rfl
    exact absurd h (by decide)

theorem get_normalize {t n : Members} (h : normalize S t = some n) {field : String}
    (hfield : field ≠ "source_shares") : n.get field = t.get field := by
  rw [normalize] at h
  split at h
  · obtain ⟨l, -, rfl⟩ := Option.map_eq_some_iff.mp h
    rw [get_set, if_neg hfield]
  · rw [Option.some_inj.mp h]

/-- A job whose fields are those of the spec has what is desired. -/
theorem agrees_of_get {j : Job} {t : Members}
    (h : ∀ item ∈ flatten defaults j, t.get item.1 = item.2) :
    Agrees S (flatten defaults j) t := by
  have hsources : t.get "source_shares" = .arr ((sortNames j.sources).map .str) :=
    h ("source_shares", _) (by simp [flatten])
  refine ⟨t.set "source_shares" (.arr ((sortNames j.sources).map .str)), ?_, ?_⟩
  · rw [normalize, hsources]
    show Option.map _ (S.sorted _) = _
    rw [S.strings, sortNames_sortNames]
    rfl
  · refine diff_one_eq_nil.mpr fun item hitem => ?_
    have hget : (t.set "source_shares" (.arr ((sortNames j.sources).map .str))).get item.1 =
        t.get item.1 := by
      rw [get_set]
      split_ifs with hname
      · rw [hname, hsources]
      · rfl
    rw [hget, h item hitem]
    exact pyEq_refl _

/-- A field that is null in the spec is null in a job that has what is desired. -/
theorem Agrees.null {j : Job} {t : Members} (h : Agrees S (flatten defaults j) t) {field : String}
    (hfield : (field, .null) ∈ flatten defaults j) : t.get field = .null := by
  have hne : field ≠ "source_shares" := by
    rintro rfl
    have hget := get_flatten hfield
    exact nomatch hget
  obtain ⟨n, hn, hnil⟩ := h
  have heq := diff_one_eq_nil.mp hnil _ hfield
  rw [get_normalize hn hne] at heq
  exact pyEq_null.mp heq

theorem get_updated {u : Update} {j : Job} (h : Planned S defaults secrets desired live u j)
    {item : String × Json} (hitem : item ∈ flatten defaults j) :
    (item.2 ≠ .null → (u.live.update (u.args secrets)).get item.1 = item.2) ∧
      (item.2 = .null →
        (u.live.update (u.args secrets)).get item.1 = u.live.get item.1) := by
  obtain ⟨hid, hsecret⟩ := ne_of_mem_fields (field_of_mem hitem)
  have hget : (u.params secrets).get item.1 = item.2 := by
    rw [Update.get_params hid hsecret, h.want, get_flatten hitem]
  constructor
  · intro hne
    exact (get_update_args_from (u.nodup_params h.names) (hget ▸ hne) _).trans hget
  · intro hnull
    exact get_update_args_from_of_null (u.nodup_params h.names) (hget.trans hnull) _

theorem get_created {j : Job} {name id : String} {field : String} (hid : field ≠ "id")
    (hsecret : field ≠ "dest_password") :
    ((create_args secrets (name, flatten defaults j)).set "id" (.str id)).get field =
      (flatten defaults j).get field := by
  have hnodup : (with_secret secrets name (flatten defaults j)).names.Nodup := by
    refine nodup_with_secret ?_
    show fields.Nodup
    decide
  rw [get_set, if_neg hid, create_args, get_args_from hnodup, get_with_secret hsecret]

/-! ### Names -/

/-- An update keeps the name of its job. -/
theorem key_updated {u : Update} {j : Job} (h : Planned S defaults secrets desired live u j) :
    job_key (u.live.update (u.args secrets)) = job_key u.live := by
  have hlive := (mem_of_last h.last).2
  have htask : (u.live.update (u.args secrets)).get "task_name" = .str j.name :=
    (get_updated h List.mem_cons_self).1 nofun
  have hname : (u.live.update (u.args secrets)).get "name" = u.live.get "name" := by
    refine get_update_args_from_of_null (u.nodup_params h.names) ?_ _
    rw [Update.get_params (by decide) (by decide), h.want]
    rfl
  rw [hlive, job_key_eq_str, htask, hname]
  by_cases hempty : j.name = ""
  · refine .inr ⟨by rw [hempty]; rfl, ?_⟩
    obtain ⟨-, hne⟩ | ⟨-, hother⟩ := job_key_eq_str.mp hlive
    · exact absurd hempty hne
    · exact hother
  · exact .inl ⟨rfl, hempty⟩

/-- A job that is created is known by its name, if this is not empty. -/
theorem key_created {j : Job} {id s : String} :
    job_key ((create_args secrets (j.name, flatten defaults j)).set "id" (.str id)) =
      some (.str s) ↔ s = j.name ∧ j.name ≠ "" := by
  rw [job_key_eq_str, get_created (by decide) (by decide), get_created (by decide) (by decide)]
  constructor
  · rintro (⟨hs, hne⟩ | ⟨-, hs⟩)
    · obtain rfl := Json.str.inj hs
      exact ⟨rfl, hne⟩
    · exact nomatch hs
  · rintro ⟨rfl, hne⟩
    exact .inl ⟨rfl, hne⟩

theorem key_touched (hlive : Distinct live) {t t' : Members} (ht : t ∈ live)
    (htouch : touches (edits S defaults secrets desired live) t = some t') :
    job_key t' = job_key t := by
  obtain h | ⟨u, hu, rfl, h⟩ | ⟨e, -, -, h⟩ :=
    touched_cases S defaults secrets desired hlive ht
  · rw [Option.some_inj.mp (h.symm.trans htouch)]
  · obtain ⟨j, hj⟩ := planned_of_mem hu
    rw [← Option.some_inj.mp (h.symm.trans htouch)]
    exact key_updated hj
  · exact nomatch h.symm.trans htouch

variable (S defaults secrets) in
/-- A job that the spec names is not deleted. -/
theorem exists_touched (hlive : Distinct live) {t : Members} (ht : t ∈ live) {j : Job}
    (hj : j ∈ desired) (hkey : job_key t = some (.str j.name)) :
    ∃ t', touches (edits S defaults secrets desired live) t = some t' := by
  obtain h | ⟨u, -, rfl, h⟩ | ⟨e, he, rfl, -⟩ :=
    touched_cases S defaults secrets desired hlive ht
  · exact ⟨_, h⟩
  · exact ⟨_, h⟩
  · obtain ⟨hlast, hnot⟩ := mem_deletes.mp he
    exact absurd (Option.some_inj.mp ((mem_of_last hlast).2.symm.trans hkey)) (hnot j hj)

/-! ### After the calls -/

/-- The jobs that the calls of a plan create. -/
structure After (S : Sorting) (defaults secrets : Members) (desired : List Job)
    (live new : List Members) : Prop where
  created : ∀ e ∈ new, ∃ w ∈ creates defaults secrets desired live, ∃ id,
    e = (create_args secrets w).set "id" (.str id)
  all : ∀ w ∈ creates defaults secrets desired live, ∃ e ∈ new, ∃ id,
    e = (create_args secrets w).set "id" (.str id)

/-- `p.calls`, where nothing raises. -/
def callsOf (S : Sorting) (defaults secrets : Members) (desired : List Job) (live : List Members) :
    List Call :=
  (creates defaults secrets desired live).map (fun w => .create (create_args secrets w)) ++
    edits S defaults secrets desired live

variable (S D defaults secrets desired live) in
theorem foldl_calls : ∃ new,
    (callsOf S defaults secrets desired live).foldl D.store live =
        live.filterMap (touches (edits S defaults secrets desired live)) ++ new ∧
      After S defaults secrets desired live new := by
  obtain ⟨new, hfold, hnew, hall⟩ := foldl_creates (D := D) secrets
    (creates defaults secrets desired live) live
  refine ⟨new, ?_, fun e he => ?_, hall⟩
  · have hedits : ∀ c ∈ edits S defaults secrets desired live, ∀ args, c ≠ .create args := by
      intro c hc args
      obtain ⟨u, -, rfl⟩ | ⟨e, -, rfl⟩ := mem_edits.mp hc
      · exact nofun
      · exact nofun
    have hkept : new.filterMap (touches (edits S defaults secrets desired live)) = new := by
      refine (List.filterMap_congr fun e he => ?_).trans List.filterMap_some
      obtain ⟨w, -, id, rfl, hid⟩ := hnew e he
      have hident : ident ((create_args secrets w).set "id" (.str id)) = some (.str id) := by
        rw [ident, get_set, if_pos rfl]
        rfl
      refine touches_of_target_ne fun c hc i hi heq => hid ?_
      obtain rfl := Option.some_inj.mp (hident.symm.trans heq)
      have htarget : Key.str id ∈
          (edits S defaults secrets desired live).filterMap Call.target :=
        List.mem_filterMap.mpr ⟨c, hc, hi⟩
      rw [targets_edits] at htarget
      obtain ⟨t, ht, hti⟩ := List.mem_filterMap.mp htarget
      exact List.mem_filterMap.mpr ⟨t, mem_live_of_edited ht, hti⟩
    rw [callsOf, List.foldl_append, hfold, foldl_store_eq hedits, List.filterMap_append, hkept]
  · obtain ⟨w, hw, id, rfl, -⟩ := hnew e he
    exact ⟨w, hw, id, rfl⟩

/-- The name of a job that is created was not there. -/
theorem After.last_eq_none {new : List Members} (h : After S defaults secrets desired live new)
    {e : Members} (he : e ∈ new) {s : String} (hkey : job_key e = some (.str s)) :
    last (.str s) live = none ∧ ∃ j ∈ desired, s = j.name ∧ j.name ≠ "" ∧
      (j.name, flatten defaults j) ∈ creates defaults secrets desired live ∧
        ∃ id, e = (create_args secrets (j.name, flatten defaults j)).set "id" (.str id) := by
  obtain ⟨w, hw, id, rfl⟩ := h.created e he
  obtain ⟨hwanted, hnone⟩ := mem_creates.mp hw
  obtain ⟨j, hj, rfl⟩ := mem_wanted hwanted
  obtain ⟨rfl, hne⟩ := key_created.mp hkey
  exact ⟨hnone, j, hj, rfl, hne, hw, id, rfl⟩

/-- The job that stood for a name of the spec does so after the calls. -/
theorem last_after (hlive : Distinct live) {new : List Members}
    (hnew : After S defaults secrets desired live new) {j : Job} (hj : j ∈ desired) {t : Members}
    (ht : last (.str j.name) live = some t) :
    ∃ t', touches (edits S defaults secrets desired live) t = some t' ∧
      last (.str j.name)
        (live.filterMap (touches (edits S defaults secrets desired live)) ++ new) = some t' := by
  obtain ⟨hmem, hkey⟩ := mem_of_last ht
  obtain ⟨t', ht'⟩ := exists_touched S defaults secrets hlive hmem hj hkey
  refine ⟨t', ht', ?_⟩
  have hfilter : (live.filterMap (touches (edits S defaults secrets desired live))).filter
      (fun t => job_key t = some (.str j.name)) =
        (live.filter fun t => job_key t = some (.str j.name)).filterMap
          (touches (edits S defaults secrets desired live)) := by
    rw [List.filter_filterMap, List.filterMap_filter]
    refine List.filterMap_congr fun a ha => ?_
    cases htouch : touches (edits S defaults secrets desired live) a with
    | none => split_ifs <;> rfl
    | some a' =>
      have hkeep := key_touched hlive ha htouch
      by_cases h : job_key a = some (.str j.name)
      · simp [h, hkeep]
      · simp [h, hkeep]
  have hnone : new.filter (fun t => job_key t = some (.str j.name)) = [] := by
    refine List.filter_eq_nil_iff.mpr fun e he hkey' => ?_
    have hlast := (hnew.last_eq_none he (of_decide_eq_true hkey')).1
    exact nomatch ht.symm.trans hlast
  obtain ⟨init, hinit⟩ := List.getLast?_eq_some_iff.mp ht
  rw [last, List.filter_append, hfilter, hnone, List.append_nil, hinit, List.filterMap_append,
    List.filterMap_cons_some ht', List.getLast?_append]
  rfl

/-! ### Runs -/

theorem plan_eq_some (h : Readable S defaults secrets desired live) :
    plan S defaults secrets desired live = some ⟨creates defaults secrets desired live,
      updates S defaults secrets desired live, deletes defaults desired live⟩ := by
  rw [plan, if_pos h]

theorem Plan.eq_nothing {p : Plan} (h : p.isEmpty = true) : p = nothing := by
  obtain ⟨cs, us, ds⟩ := p
  simp only [Plan.isEmpty, Bool.and_eq_true, List.isEmpty_iff] at h
  obtain ⟨⟨rfl, rfl⟩, rfl⟩ := h
  rfl

/-- A run makes a first part of its calls; all of them where it succeeds. -/
theorem issue_spec (accepts : List Members → Call → Bool) (p : Plan) :
    ∀ (cs : List Call) (live : List Members),
      (∀ c ∈ (issue D accepts p cs live).calls, c ∈ cs) ∧
        (∃ done : List Call, (∀ c ∈ done, c ∈ cs) ∧
          (issue D accepts p cs live).live = done.foldl D.store live) ∧
        ((issue D accepts p cs live).succeeds = true →
          (issue D accepts p cs live).live = cs.foldl D.store live) := by
  intro cs
  induction cs with
  | nil => exact fun live => ⟨fun _ h => h, ⟨[], fun _ h => h, rfl⟩, fun _ => rfl⟩
  | cons c cs ih =>
    intro live
    rw [issue]
    split_ifs with haccepts
    · obtain ⟨hcalls, ⟨done, hdone, hlive⟩, hall⟩ := ih (D.store live c)
      refine ⟨?_, ⟨c :: done, ?_, hlive⟩, hall⟩
      · exact fun c' hc' => List.mem_cons.mpr ((List.mem_cons.mp hc').imp_right (hcalls c'))
      · exact fun c' hc' => List.mem_cons.mpr ((List.mem_cons.mp hc').imp_right (hdone c'))
    · refine ⟨fun c' hc' => ?_, ⟨[], (fun _ h => nomatch h), rfl⟩, fun h => nomatch h⟩
      exact List.mem_cons.mpr (.inl (List.mem_singleton.mp hc'))

/-- A run of calls that DSM accepts makes all of them. -/
theorem issue_accepted {p : Plan} : ∀ (cs : List Call) (live : List Members),
    issue D (fun _ _ => true) p cs live = ⟨.changed p, cs, cs.foldl D.store live⟩ := by
  intro cs
  induction cs with
  | nil => exact fun _ => rfl
  | cons c cs ih =>
    intro live
    rw [issue, if_pos rfl, ih]
    rfl

/-- The calls and the jobs of any run. -/
theorem do_jobs_spec {accepts : List Members → Call → Bool} {check : Bool} {r : Run}
    (h : do_jobs S D accepts check defaults secrets desired live = some r) :
    Readable S defaults secrets desired live ∧
      (∀ c ∈ r.calls, c ∈ callsOf S defaults secrets desired live) ∧
      (∃ done : List Call, (∀ c ∈ done, c ∈ callsOf S defaults secrets desired live) ∧
        r.live = done.foldl D.store live) ∧
      (check = false → r.succeeds = true →
        r.live = (callsOf S defaults secrets desired live).foldl D.store live) := by
  have hread : Readable S defaults secrets desired live := by
    by_contra hnot
    rw [do_jobs, plan, if_neg hnot] at h
    cases h
  rw [do_jobs, plan_eq_some hread, Option.map_some] at h
  obtain rfl := Option.some_inj.mp h
  refine ⟨hread, ?_⟩
  have hstay : (∀ c ∈ ([] : List Call), c ∈ callsOf S defaults secrets desired live) ∧
      ∃ done : List Call, (∀ c ∈ done, c ∈ callsOf S defaults secrets desired live) ∧
        live = done.foldl D.store live :=
    ⟨fun _ h => absurd h List.not_mem_nil, [], fun _ h => absurd h List.not_mem_nil, rfl⟩
  split_ifs with hempty hcheck
  · refine ⟨hstay.1, hstay.2, fun _ _ => ?_⟩
    have hplan := Plan.mk.inj (Plan.eq_nothing hempty)
    rw [callsOf, edits, hplan.1, hplan.2.1, hplan.2.2]
    rfl
  · exact ⟨hstay.1, hstay.2, fun hfalse => Bool.noConfusion (hcheck.symm.trans hfalse)⟩
  · obtain ⟨hcalls, hdone, hall⟩ :=
      issue_spec (D := D) accepts _ (callsOf S defaults secrets desired live) live
    exact ⟨hcalls, hdone, fun _ => hall⟩

/-- A call that changes or deletes a job names one that was there. -/
def Addressed (live : List Members) : Call → Prop
  | .create _ => True
  | .update args | .delete args =>
    ∃ t ∈ live, ident t ≠ none ∧ args.lookup "id" = some (t.get "id")

/-- What runs should do: one after one that succeeds plans nothing, what the spec omits is neither
drift nor changed, and no job is changed or deleted without its id. -/
structure Reconciles (S : Sorting) (D : Dsm) (defaults secrets : Members) (desired : List Job)
    (live : List Members) : Prop where
  settles : ∀ accepts r, do_jobs S D accepts false defaults secrets desired live = some r →
    r.succeeds = true → ∀ accepts' check,
      do_jobs S D accepts' check defaults secrets desired r.live = some ⟨.ok, [], r.live⟩
  not_reported : ∀ p, plan S defaults secrets desired live = some p → ∀ u ∈ p.updates,
    ∀ j ∈ desired, j.name = u.name → ∀ field, Omits j field → ∀ d ∈ u.drift, d.field ≠ field
  not_changed : ∀ accepts check r,
    do_jobs S D accepts check defaults secrets desired live = some r →
      ∀ j ∈ desired, ∀ field, Omits j field → ∀ t ∈ live, job_key t = some (.str j.name) →
        ∃ t' ∈ r.live, ident t' = ident t ∧ t'.get field = t.get field
  addressed : ∀ accepts check r,
    do_jobs S D accepts check defaults secrets desired live = some r →
      ∀ c ∈ r.calls, Addressed live c

/-- A field that is null in the spec is null in the live job, a job that is changed or deleted has
an id, no name but those of the spec is that of two live jobs, and no job is created without a
name. -/
structure Settles (S : Sorting) (defaults secrets : Members) (desired : List Job)
    (live : List Members) : Prop where
  null : ∀ w ∈ wanted defaults secrets desired, ∀ t, last (.str w.1) live = some t →
    ∀ field, (field, .null) ∈ w.2 → t.get field = .null
  changed : ∀ w ∈ wanted defaults secrets desired, ∀ t, last (.str w.1) live = some t →
    ¬ Agrees S w.2 t → ident t ≠ none
  deleted : ∀ t ∈ live, ∀ k, job_key t = some k → Undesired desired k →
    ident t ≠ none ∧ ∀ t' ∈ live, job_key t' = some k → t' = t
  named : ∀ w ∈ wanted defaults secrets desired, last (.str w.1) live = none → w.1 ≠ ""

theorem not_agrees_of_mem {u : Update} (h : u ∈ updates S defaults secrets desired live) :
    ¬ Agrees S u.want u.live := by
  rintro ⟨n, hn, hnil⟩
  obtain ⟨w, -, hu⟩ := mem_updates.mp h
  obtain ⟨-, -, hwant, n', hn', hne, -⟩ := updateOf_eq_some.mp hu
  obtain rfl := Option.some_inj.mp (hn.symm.trans hn')
  exact hne (hwant ▸ hnil)

/-! ### Enough -/

/-- A job that stands for a wanted one has what is desired, after the calls. -/
theorem Settles.agrees (h : Settles S defaults secrets desired live) (hlive : Distinct live)
    (hread : Readable S defaults secrets desired live) {j : Job}
    (hw : (j.name, flatten defaults j) ∈ wanted defaults secrets desired) {t t' : Members}
    (ht : last (.str j.name) live = some t)
    (htouch : touches (edits S defaults secrets desired live) t = some t') :
    Agrees S (flatten defaults j) t' := by
  obtain ⟨hmem, hkey⟩ := mem_of_last ht
  by_cases hagrees : Agrees S (flatten defaults j) t
  · -- it is not touched
    obtain hsame | ⟨u, hu, rfl, -⟩ | ⟨e, -, -, hnone⟩ :=
      touched_cases S defaults secrets desired hlive hmem
    · rwa [← Option.some_inj.mp (hsame.symm.trans htouch)]
    · obtain ⟨j', hj'⟩ := planned_of_mem hu
      have hkey' := (mem_of_last hj'.last).2.symm.trans hkey
      have hname : u.name = j.name :=
        hj'.name.trans (Key.str.inj (Option.some_inj.mp hkey'))
      have heq : u.want = flatten defaults j :=
        congrArg Prod.snd (eq_of_wanted hj'.wanted hw hname)
      exact absurd (heq ▸ hagrees) (not_agrees_of_mem hu)
    · exact nomatch hnone.symm.trans htouch
  · obtain ⟨u, hu, -, hwant, rfl⟩ := exists_update hread hw ht hagrees
    have htouch' := touches_update hlive hu (h.changed _ hw _ ht hagrees)
    rw [← Option.some_inj.mp (htouch'.symm.trans htouch)]
    obtain ⟨j', hj'⟩ := planned_of_mem hu
    have hflat : flatten defaults j' = flatten defaults j := hj'.want.symm.trans hwant
    refine agrees_of_get fun item hitem => ?_
    obtain ⟨hsent, hkept⟩ := get_updated hj' (hflat.symm ▸ hitem)
    by_cases hnull : item.2 = .null
    · rw [hkept hnull, hnull]
      exact h.null _ hw _ ht item.1 (hnull ▸ hitem)
    · exact hsent hnull

theorem Settles.settled (h : Settles S defaults secrets desired live) (hlive : Distinct live)
    (hread : Readable S defaults secrets desired live) :
    Settled S defaults secrets desired
      ((callsOf S defaults secrets desired live).foldl D.store live) := by
  obtain ⟨new, hfold, hnew⟩ := foldl_calls S D defaults secrets desired live
  rw [hfold]
  constructor
  · intro w hw
    obtain ⟨j, hj, rfl⟩ := mem_wanted hw
    cases ht : last (.str j.name) live with
    | some t =>
      obtain ⟨t', htouch, hlast⟩ := last_after hlive hnew hj ht
      exact ⟨t', hlast, h.agrees hlive hread hw ht htouch⟩
    | none =>
      have hne := h.named _ hw ht
      obtain ⟨e, he, id, rfl⟩ := hnew.all _ (mem_creates.mpr ⟨hw, ht⟩)
      obtain ⟨d, hd⟩ := exists_last (List.mem_append_right _ he) (key_created.mpr ⟨rfl, hne⟩)
      refine ⟨d, hd, ?_⟩
      obtain ⟨hmem, hkey⟩ := mem_of_last hd
      obtain hmem | hmem := List.mem_append.mp hmem
      · -- no live job has the name
        obtain ⟨t, htmem, htouch⟩ := List.mem_filterMap.mp hmem
        obtain ⟨d', hd'⟩ := exists_last htmem ((key_touched hlive htmem htouch).symm.trans hkey)
        exact nomatch hd'.symm.trans ht
      · obtain ⟨-, j', -, hname, -, hcreate, id', rfl⟩ := hnew.last_eq_none hmem hkey
        have heq : flatten defaults j = flatten defaults j' :=
          congrArg Prod.snd (eq_of_wanted hw (mem_creates.mp hcreate).1 hname)
        show Agrees S (flatten defaults j) _
        rw [heq]
        refine agrees_of_get fun item hitem => ?_
        obtain ⟨hid, hsecret⟩ := ne_of_mem_fields (field_of_mem hitem)
        rw [get_created hid hsecret, get_flatten hitem]
  · intro t' ht'
    obtain hmem | hmem := List.mem_append.mp ht'
    · obtain ⟨t, htmem, htouch⟩ := List.mem_filterMap.mp hmem
      obtain ⟨k, hk⟩ := hread.key htmem
      rw [key_touched hlive htmem htouch, hk]
      by_contra hnot
      have hundesired : Undesired desired k := fun j hj he => hnot ⟨j, hj, congrArg some he⟩
      obtain ⟨hid, hone⟩ := h.deleted t htmem k hk hundesired
      obtain ⟨d, hd⟩ := exists_last htmem hk
      obtain rfl := hone d (mem_of_last hd).1 (mem_of_last hd).2
      have hdelete : (k, d) ∈ deletes defaults desired live := mem_deletes.mpr ⟨hd, hundesired⟩
      exact nomatch (touches_delete hlive hdelete hid).symm.trans htouch
    · obtain ⟨w, hw, id, rfl⟩ := hnew.created t' hmem
      obtain ⟨hwanted, hnone⟩ := mem_creates.mp hw
      obtain ⟨j, hj, rfl⟩ := mem_wanted hwanted
      exact ⟨j, hj, key_created.mpr ⟨rfl, h.named _ hwanted hnone⟩⟩

variable (defaults) in
/-- What the spec omits is null. -/
theorem Omits.mem_flatten {j : Job} {field : String} (h : Omits j field) :
    (field, .null) ∈ flatten defaults j := by
  simp only [Omits, optional, List.mem_cons, List.not_mem_nil, or_false, Prod.mk.injEq] at h
  simp only [flatten, List.mem_cons, Prod.mk.injEq, Members.get]
  obtain ⟨rfl, h⟩ | ⟨rfl, h⟩ | ⟨rfl, h⟩ | ⟨rfl, h⟩ | ⟨rfl, h⟩ := h
  all_goals
    rw [← h]
    simp

theorem eq_of_name (hnames : (desired.map Job.name).Nodup) {j j' : Job} (hj : j ∈ desired)
    (hj' : j' ∈ desired) (h : j.name = j'.name) : j = j' :=
  List.inj_on_of_nodup_map hnames hj hj' h

theorem Settles.not_reported (h : Settles S defaults secrets desired live)
    (hnames : (desired.map Job.name).Nodup) {u : Update}
    (hu : u ∈ updates S defaults secrets desired live) {j : Job} (hj : j ∈ desired)
    (hname : j.name = u.name) {field : String} (hfield : Omits j field) :
    ∀ d ∈ u.drift, d.field ≠ field := by
  rintro d hd rfl
  obtain ⟨w, hw, hof⟩ := mem_updates.mp hu
  obtain ⟨hlast, hw₁, -, n, hn, -, hdrift⟩ := updateOf_eq_some.mp hof
  obtain ⟨j', hj', rfl⟩ := mem_wanted hw
  obtain rfl := eq_of_name hnames hj hj' (hname.trans hw₁)
  rw [hdrift] at hd
  obtain ⟨hmem, hcurrent, hne⟩ := mem_diff_one.mp hd
  have hnull := h.null _ hw _ hlast d.field (hfield.mem_flatten _)
  have hdesired : d.desired = .null := (get_flatten hmem).symm.trans (get_flatten (hfield.mem_flatten _))
  have hsources : d.field ≠ "source_shares" := by
    intro he
    have hget := get_flatten (hfield.mem_flatten defaults)
    rw [he] at hget
    exact nomatch hget
  rw [hcurrent, hdesired, get_normalize hn hsources, hnull] at hne
  exact nomatch hne

/-- No call changes what the spec omits. -/
theorem not_changed (hnames : (desired.map Job.name).Nodup) (hlive : Distinct live)
    {done : List Call} (hdone : ∀ c ∈ done, c ∈ callsOf S defaults secrets desired live) {j : Job}
    (hj : j ∈ desired) {field : String} (hfield : Omits j field) {t : Members} (ht : t ∈ live)
    (hkey : job_key t = some (.str j.name)) :
    ∃ t' ∈ done.foldl D.store live, ident t' = ident t ∧ t'.get field = t.get field := by
  have hstep : ∀ c ∈ done, ∀ t', ident t' = ident t ∧ t'.get field = t.get field →
      ∃ t'', c.touch t' = some t'' ∧ ident t'' = ident t ∧ t''.get field = t.get field := by
    rintro c hc t' ⟨hid, hget⟩
    have htarget : ∀ i, c.target = some i → ident t' = some i →
        ∃ t'', c.touch t' = some t'' ∧ ident t'' = ident t ∧ t''.get field = t.get field := by
      intro i hi hti
      obtain hcreate | hedit := List.mem_append.mp (hdone c hc)
      · obtain ⟨w, -, rfl⟩ := List.mem_map.mp hcreate
        exact nomatch hi
      · obtain ⟨u, hu, rfl⟩ | ⟨e, he, rfl⟩ := mem_edits.mp hedit
        · obtain ⟨j', hj'⟩ := planned_of_mem hu
          have hargs := Update.ident_args secrets hj'.names
          obtain ⟨hmem, hkey'⟩ := mem_of_last hj'.last
          obtain rfl := hlive.inj hmem ht (hargs.symm.trans hi) (hid.symm.trans hti)
          have hname := Key.str.inj (Option.some_inj.mp (hkey.symm.trans hkey'))
          obtain rfl := eq_of_name hnames hj hj'.job hname
          have hsome : ident u.live ≠ none := hid ▸ hti ▸ nofun
          have hnamed : Names (u.args secrets) t' := ⟨hargs.symm ▸ hsome, hid.trans hargs.symm⟩
          refine ⟨t'.update (u.args secrets), congrArg some (if_pos hnamed), ?_, ?_⟩
          · exact Update.ident_update hj'.names hsome t'
          · refine (get_update_args_from_of_null (u.nodup_params hj'.names) ?_ t').trans hget
            have hflat := hfield.mem_flatten defaults
            obtain ⟨hid', hsecret⟩ := ne_of_mem_fields (field_of_mem hflat)
            exact (Update.get_params hid' hsecret).trans (hj'.want ▸ get_flatten hflat)
        · obtain ⟨hlast, hnot⟩ := mem_deletes.mp he
          have hargs := ident_delete_args e
          have heq := hlive.inj (mem_of_last hlast).1 ht (hargs.symm.trans hi) (hid.symm.trans hti)
          have hkey' := (mem_of_last hlast).2
          rw [heq, hkey] at hkey'
          exact absurd (Option.some_inj.mp hkey').symm (hnot j hj)
    by_cases hhit : ∃ i, c.target = some i ∧ ident t' = some i
    · obtain ⟨i, hi, hti⟩ := hhit
      exact htarget i hi hti
    · exact ⟨t', touch_of_target_ne fun i hi hti => hhit ⟨i, hi, hti⟩, hid, hget⟩
  obtain ⟨t', htouch, ht'⟩ := touches_invariant hstep ⟨rfl, rfl⟩
  exact ⟨t', mem_foldl_store ht htouch, ht'⟩

theorem Update.lookup_id_args {u : Update} (h : u.want.names = fields) (hid : ident u.live ≠ none) :
    (u.args secrets).lookup "id" = some (u.live.get "id") := by
  have hparams := u.id_params secrets
  rw [← hparams]
  exact lookup_args_from (u.nodup_params h) (hparams ▸ ne_null_of_ident hid)

theorem lookup_id_delete_args {e : Key × Members} (hid : ident e.2 ≠ none) :
    (delete_args e).lookup "id" = some (e.2.get "id") := by
  have hnodup : (Members.names [("id", e.2.get "id")]).Nodup := List.nodup_singleton _
  refine (lookup_args_from hnodup ?_).trans (congrArg some ?_)
  · rw [Members.get_cons, if_pos rfl]
    exact ne_null_of_ident hid
  · rw [Members.get_cons, if_pos rfl]

theorem Settles.addressed (h : Settles S defaults secrets desired live) {c : Call}
    (hc : c ∈ callsOf S defaults secrets desired live) : Addressed live c := by
  obtain hcreate | hedit := List.mem_append.mp hc
  · obtain ⟨w, -, rfl⟩ := List.mem_map.mp hcreate
    trivial
  · obtain ⟨u, hu, rfl⟩ | ⟨e, he, rfl⟩ := mem_edits.mp hedit
    · obtain ⟨j, hj⟩ := planned_of_mem hu
      have hid : ident u.live ≠ none :=
        h.changed _ hj.wanted _ (hj.name ▸ hj.last) (not_agrees_of_mem hu)
      exact ⟨u.live, (mem_of_last hj.last).1, hid, Update.lookup_id_args hj.names hid⟩
    · obtain ⟨hlast, hnot⟩ := mem_deletes.mp he
      obtain ⟨hmem, hkey⟩ := mem_of_last hlast
      have hid := (h.deleted _ hmem _ hkey hnot).1
      exact ⟨e.2, hmem, hid, lookup_id_delete_args hid⟩

theorem Settles.reconciles (h : Readable S defaults secrets desired live →
      Settles S defaults secrets desired live) (hnames : (desired.map Job.name).Nodup)
    (hlive : Distinct live) : Reconciles S D defaults secrets desired live := by
  constructor
  · intro accepts r hr hsucceeds accepts' check
    obtain ⟨hread, -, -, hall⟩ := do_jobs_spec hr
    have hsettled := (h hread).settled (D := D) hlive hread
    rw [hall rfl hsucceeds, do_jobs, plan_eq_nothing_iff.mpr hsettled]
    rfl
  · intro p hp u hu j hj hname field hfield
    have hread : Readable S defaults secrets desired live := by
      by_contra hnot
      rw [plan, if_neg hnot] at hp
      cases hp
    rw [plan_eq_some hread] at hp
    obtain rfl := Option.some_inj.mp hp
    exact (h hread).not_reported hnames hu hj hname hfield
  · intro accepts check r hr j hj field hfield t ht hkey
    obtain ⟨-, -, ⟨done, hdone, hdo⟩, -⟩ := do_jobs_spec hr
    rw [hdo]
    exact not_changed hnames hlive hdone hj hfield ht hkey
  · intro accepts check r hr c hc
    obtain ⟨hread, hcalls, -, -⟩ := do_jobs_spec hr
    exact (h hread).addressed (hcalls c hc)

/-! ### Necessary -/

section Necessary

variable (h : Reconciles S D defaults secrets desired live)
  (hread : Readable S defaults secrets desired live)

include h hread

/-- The run of which DSM accepts all calls leaves nothing to do. -/
theorem Reconciles.settled : Settled S defaults secrets desired
    ((callsOf S defaults secrets desired live).foldl D.store live) := by
  obtain ⟨r, hr⟩ : ∃ r, do_jobs S D (fun _ _ => true) false defaults secrets desired live =
      some r := by
    rw [do_jobs, plan_eq_some hread]
    exact ⟨_, rfl⟩
  have hsucceeds : r.succeeds = true := by
    rw [do_jobs, plan_eq_some hread, Option.map_some] at hr
    rw [← Option.some_inj.mp hr, if_neg Bool.false_ne_true]
    split_ifs
    · rfl
    · rw [issue_accepted]
      rfl
  obtain ⟨-, -, -, hall⟩ := do_jobs_spec hr
  have hagain := h.settles _ r hr hsucceeds (fun _ _ => true) true
  rw [hall rfl hsucceeds] at hagain
  obtain ⟨p, hp, hrun⟩ := Option.map_eq_some_iff.mp hagain
  refine plan_eq_nothing_iff.mp (hp.trans (congrArg some (Plan.eq_nothing ?_)))
  by_contra hempty
  rw [if_neg hempty, if_pos rfl] at hrun
  exact nomatch hrun

theorem Reconciles.addressed_of_mem {c : Call}
    (hc : c ∈ callsOf S defaults secrets desired live) : Addressed live c := by
  have hempty : ¬ Plan.isEmpty ⟨creates defaults secrets desired live,
      updates S defaults secrets desired live, deletes defaults desired live⟩ = true := by
    intro he
    have hplan := Plan.mk.inj (Plan.eq_nothing he)
    rw [callsOf, edits, hplan.1, hplan.2.1, hplan.2.2] at hc
    cases hc
  have hrun : do_jobs S D (fun _ _ => true) false defaults secrets desired live =
      some ⟨.changed ⟨creates defaults secrets desired live,
        updates S defaults secrets desired live, deletes defaults desired live⟩,
        callsOf S defaults secrets desired live,
        (callsOf S defaults secrets desired live).foldl D.store live⟩ := by
    rw [do_jobs, plan_eq_some hread, Option.map_some, if_neg hempty, if_neg Bool.false_ne_true]
    exact congrArg some (issue_accepted _ live)
  exact h.addressed _ _ _ hrun c hc

theorem Reconciles.ident_of_update {u : Update}
    (hu : u ∈ updates S defaults secrets desired live) : ident u.live ≠ none := by
  obtain ⟨j, hj⟩ := planned_of_mem hu
  obtain ⟨t, -, hid, hlookup⟩ :=
    h.addressed_of_mem hread (List.mem_append_right _ (mem_edits.mpr (.inl ⟨u, hu, rfl⟩)))
  rw [← Update.ident_args secrets hj.names]
  have hget : (u.args secrets).get "id" = t.get "id" := by
    rw [Members.get, hlookup]
    rfl
  exact ident_congr hget ▸ hid

theorem Reconciles.ident_of_delete {e : Key × Members} (he : e ∈ deletes defaults desired live) :
    ident e.2 ≠ none := by
  obtain ⟨t, -, hid, hlookup⟩ :=
    h.addressed_of_mem hread (List.mem_append_right _ (mem_edits.mpr (.inr ⟨e, he, rfl⟩)))
  rw [← ident_delete_args e]
  have hget : (delete_args e).get "id" = t.get "id" := by
    rw [Members.get, hlookup]
    rfl
  exact ident_congr hget ▸ hid

theorem Reconciles.conditions (hlive : Distinct live) :
    Settles S defaults secrets desired live := by
  have hsettled := h.settled hread
  obtain ⟨new, hfold, hnew⟩ := foldl_calls S D defaults secrets desired live
  rw [hfold] at hsettled
  constructor
  · intro w hw t ht field hfield
    obtain ⟨j, hj, rfl⟩ := mem_wanted hw
    obtain ⟨t', htouch, hlast⟩ := last_after hlive hnew hj ht
    obtain ⟨t'', hlast', hagrees⟩ := hsettled.one _ hw
    obtain rfl := Option.some_inj.mp (hlast.symm.trans hlast')
    rw [← hagrees.null hfield]
    obtain hsame | ⟨u, hu, rfl, hupdate⟩ | ⟨e, -, -, hnone⟩ :=
      touched_cases S defaults secrets desired hlive (mem_of_last ht).1
    · rw [Option.some_inj.mp (hsame.symm.trans htouch)]
    · obtain ⟨j', hj'⟩ := planned_of_mem hu
      have hkey := (mem_of_last hj'.last).2.symm.trans (mem_of_last ht).2
      have hname : u.name = j.name := hj'.name.trans (Key.str.inj (Option.some_inj.mp hkey))
      have heq : u.want = flatten defaults j :=
        congrArg Prod.snd (eq_of_wanted hj'.wanted hw hname)
      rw [← Option.some_inj.mp (hupdate.symm.trans htouch)]
      exact ((get_updated hj' (hj'.want ▸ heq.symm ▸ hfield)).2 rfl).symm
    · exact nomatch hnone.symm.trans htouch
  · intro w hw t ht hdiff
    obtain ⟨u, hu, -, -, rfl⟩ := exists_update hread hw ht hdiff
    exact h.ident_of_update hread hu
  · intro t ht k hk hnot
    -- of the jobs of one name the last one is deleted, and another one would still be there
    have hdeleted : ∀ t' ∈ live, job_key t' = some k → last k live = some t' := by
      intro t' ht' hk'
      cases htouch : touches (edits S defaults secrets desired live) t' with
      | some t'' =>
        obtain ⟨j, hj, hkey⟩ := hsettled.only t''
          (List.mem_append_left _ (List.mem_filterMap.mpr ⟨t', ht', htouch⟩))
        rw [key_touched hlive ht' htouch, hk'] at hkey
        exact absurd (Option.some_inj.mp hkey) (hnot j hj)
      | none =>
        obtain hsame | ⟨u, -, -, hupdate⟩ | ⟨e, he, rfl, -⟩ :=
          touched_cases S defaults secrets desired hlive ht'
        · exact nomatch hsame.symm.trans htouch
        · exact nomatch hupdate.symm.trans htouch
        · obtain ⟨hlast, -⟩ := mem_deletes.mp he
          rwa [Option.some_inj.mp ((mem_of_last hlast).2.symm.trans hk')] at hlast
    have hlast := hdeleted t ht hk
    refine ⟨h.ident_of_delete hread (e := (k, t)) (mem_deletes.mpr ⟨hlast, hnot⟩), ?_⟩
    intro t' ht' hk'
    exact Option.some_inj.mp ((hdeleted t' ht' hk').symm.trans hlast)
  · intro w hw hnone hempty
    obtain ⟨d, hlast, -⟩ := hsettled.one w hw
    obtain ⟨hmem, hkey⟩ := mem_of_last hlast
    obtain hmem | hmem := List.mem_append.mp hmem
    · obtain ⟨t, ht, htouch⟩ := List.mem_filterMap.mp hmem
      obtain ⟨d', hd'⟩ := exists_last ht ((key_touched hlive ht htouch).symm.trans hkey)
      exact nomatch hd'.symm.trans hnone
    · obtain ⟨-, j, -, hname, hne, -⟩ := hnew.last_eq_none hmem hkey
      exact hne (hname.symm.trans hempty)

end Necessary

/-- Runs do what they should exactly if the script raises, or if no live job has a value for a field
that is null in the spec, the jobs that are changed or deleted have ids, those that are deleted
different names, and those that are created a name. -/
theorem do_jobs_reconciles_iff (S : Sorting) (D : Dsm) (defaults secrets : Members)
    {desired : List Job} {live : List Members} (hnames : (desired.map Job.name).Nodup)
    (hlive : Distinct live) :
    Reconciles S D defaults secrets desired live ↔
      (Readable S defaults secrets desired live → Settles S defaults secrets desired live) :=
  ⟨fun h hread => h.conditions hread hlive, fun h => Settles.reconciles h hnames hlive⟩

/-! ### One job -/

/-- Python, where all sources are strings. -/
def strings : Sorting where
  sorted l := some ((sortNames (l.filterMap fun | .str s => some s | _ => none)).map .str)
  strings l := by
    have hnames : (l.map Json.str).filterMap (fun | .str s => some s | _ => none) = l := by
      rw [List.filterMap_map]
      exact List.filterMap_some
    rw [hnames]

/-- A DSM that counts its ids up. -/
def counting : Dsm where
  new_id live := String.ofList ('i' :: (live.filterMap ident).flatMap fun
    | .str s => s.toList
    | _ => [])
  fresh live h := by
    -- it is longer than any other
    have hlength := (List.sublist_flatten_of_mem (List.mem_map_of_mem (f := fun
      | Key.str s => s.toList
      | _ => []) h)).length_le
    rw [← List.flatMap_def] at hlength
    simp only [String.toList_ofList, List.length_cons] at hlength
    omega

/-- A job of which the spec gives the sources only. -/
def offbox (enabled : Bool) : Job := ⟨"offbox", [], ["admin"], [], none, some (.bool enabled)⟩

/-- It is there, without a destination and a schedule. -/
def offboxTask : Members :=
  [("id", .int 7), ("task_name", .str "offbox"), ("source_shares", .arr [.str "admin"]),
    ("enable_encryption", .bool true), ("enable_task", .bool true)]

def offboxSecrets : Members := [("offbox", .str "s3cret")]

theorem mem_wanted_offbox {enabled : Bool} {w : String × Members}
    (h : w ∈ wanted [] offboxSecrets [offbox enabled]) :
    w = ("offbox", flatten [] (offbox enabled)) := by
  obtain ⟨j, hj, rfl⟩ := mem_wanted h
  rw [List.mem_singleton.mp hj]
  rfl

/-- The job is disabled, by its id, and all is done. -/
theorem offbox_reconciles :
    Reconciles strings counting [] offboxSecrets [offbox false] [offboxTask] := by
  have hkey : job_key offboxTask = some (.str "offbox") := rfl
  have hnames : ([offbox false].map Job.name).Nodup := List.nodup_singleton _
  have hlive : Distinct [offboxTask] := List.nodup_singleton (Key.num 7)
  refine (do_jobs_reconciles_iff strings counting [] offboxSecrets hnames hlive).mpr
    fun _ => ⟨?_, ?_, ?_, ?_⟩
  · intro w hw t ht field hfield
    rw [mem_wanted_offbox hw] at hfield
    obtain rfl := List.mem_singleton.mp (mem_of_last ht).1
    simp only [flatten, offbox, List.mem_cons, Prod.mk.injEq, List.not_mem_nil, or_false] at hfield
    obtain ⟨-, h⟩ | ⟨rfl, -⟩ | ⟨rfl, -⟩ | ⟨rfl, -⟩ | ⟨-, h⟩ | ⟨rfl, -⟩ | ⟨rfl, -⟩ | ⟨-, h⟩ | ⟨-, h⟩ :=
      hfield
    all_goals first | rfl | exact nomatch h
  · intro w hw t ht _
    obtain rfl := List.mem_singleton.mp (mem_of_last ht).1
    exact nofun
  · intro t ht k hk hnot
    obtain rfl := List.mem_singleton.mp ht
    exact absurd (Option.some_inj.mp (hk.symm.trans hkey)) (hnot _ List.mem_cons_self)
  · intro w hw _
    rw [mem_wanted_offbox hw]
    exact of_decide_eq_true rfl

/-- The same job, with a number of versions that the spec does not give. -/
def retained : Members := ("retention_count", .int 30) :: offboxTask

/-- It is updated in every run. -/
theorem retained_not_reconciled :
    ¬ Reconciles strings counting [] offboxSecrets [offbox true] [retained] := by
  intro h
  have hread : Readable strings [] offboxSecrets [offbox true] [retained] := by decide
  have hlive : Distinct [retained] := List.nodup_singleton (Key.num 7)
  have hnull := (h.conditions hread hlive).null
    ("offbox", flatten [] (offbox true)) ?_ retained rfl "retention_count" ?_
  · exact nomatch hnull
  · exact List.mem_filter.mpr ⟨List.mem_cons_self, rfl⟩
  · simp [flatten, offbox, Members.get]

end ApplyHyperBackup
