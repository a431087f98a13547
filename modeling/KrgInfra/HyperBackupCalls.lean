/-
What the calls of a plan make of the Hyper Backup jobs.

Each call that names a job names another one, so that a live job is changed once.  What is sent is
stored, and the other fields stay as they are.

* `Call.touch`, `touches` — what calls make of one live job;
* `foldl_store_eq`, `foldl_creates` — and of all of them;
* `get_update_args_from`, `get_update_args_from_of_null` — the fields of a job that is updated;
* `touched_cases` — the calls of a plan leave a job alone, update it or delete it.
-/
import KrgInfra.EntryLists
import KrgInfra.HyperBackup

namespace ApplyHyperBackup

open Json

/-! ### One job -/

/-- The job that a call names. -/
def Call.target : Call → Option Key
  | .create _ => none
  | .update args => ident args
  | .delete args => ident args

/-- What a call makes of a live job; `none` where it deletes it. -/
def Call.touch : Call → Members → Option Members
  | .create _, t => some t
  | .update args, t => some (if Names args t then t.update args else t)
  | .delete args, t => if Names args t then none else some t

def touches (cs : List Call) (t : Members) : Option Members :=
  cs.foldl (fun t c => t.bind c.touch) (some t)

theorem touches_cons (c : Call) (cs : List Call) (t : Members) :
    touches (c :: cs) t = (c.touch t).bind (touches cs) := by
  rw [touches, List.foldl_cons, Option.bind_some]
  cases c.touch t with
  | some t' => rfl
  | none =>
    rw [Option.bind_none]
    induction cs with
    | nil => rfl
    | cons c cs ih => exact ih

/-- A call that does not name a job leaves it alone. -/
theorem touch_of_target_ne {c : Call} {t : Members}
    (h : ∀ i, c.target = some i → ident t ≠ some i) : c.touch t = some t := by
  have hnot : ∀ args, c.target = ident args → ¬ Names args t := by
    rintro args hargs ⟨hne, heq⟩
    obtain ⟨i, hi⟩ := Option.ne_none_iff_exists'.mp hne
    exact h i (hargs.trans hi) (heq.trans hi)
  cases c with
  | create args => rfl
  | update args => exact congrArg some (if_neg (hnot args rfl))
  | delete args => exact if_neg (hnot args rfl)

theorem touches_of_target_ne {cs : List Call} {t : Members}
    (h : ∀ c ∈ cs, ∀ i, c.target = some i → ident t ≠ some i) : touches cs t = some t := by
  induction cs with
  | nil => rfl
  | cons c cs ih =>
    rw [touches_cons, touch_of_target_ne (h c List.mem_cons_self)]
    exact ih fun c' hc' => h c' (List.mem_cons_of_mem _ hc')

/-- Of calls that name different jobs one changes a job. -/
theorem touches_of_mem {c : Call} {t : Members} {i : Key} (hc : c.target = some i)
    (ht : ident t = some i) (hkeep : ∀ t', c.touch t = some t' → ident t' = ident t) :
    ∀ {cs : List Call}, (cs.filterMap Call.target).Nodup → c ∈ cs → touches cs t = c.touch t := by
  intro cs
  induction cs with
  | nil => exact fun _ h => nomatch h
  | cons c' cs ih =>
    intro hnodup hmem
    rw [touches_cons]
    obtain rfl | hmem := List.mem_cons.mp hmem
    · rw [List.filterMap_cons_some hc, List.nodup_cons] at hnodup
      cases htouch : c.touch t with
      | none => rfl
      | some t' =>
        refine touches_of_target_ne fun c' hc' i' hi' ht' => hnodup.1 ?_
        rw [hkeep t' htouch, ht] at ht'
        exact List.mem_filterMap.mpr ⟨c', hc', hi'.trans ht'.symm⟩
    · have hother : c'.touch t = some t := by
        refine touch_of_target_ne fun i' hi' ht' => ?_
        rw [List.filterMap_cons_some hi', List.nodup_cons] at hnodup
        refine hnodup.1 (List.mem_filterMap.mpr ⟨c, hmem, hc.trans (ht.symm.trans ht')⟩)
      rw [hother]
      refine ih ?_ hmem
      cases hi : c'.target with
      | none => rwa [List.filterMap_cons_none hi] at hnodup
      | some i' =>
        rw [List.filterMap_cons_some hi] at hnodup
        exact hnodup.of_cons

/-- What each call keeps of a job stays. -/
theorem touches_invariant {P : Members → Prop} {cs : List Call}
    (h : ∀ c ∈ cs, ∀ t, P t → ∃ t', c.touch t = some t' ∧ P t') {t : Members} (ht : P t) :
    ∃ t', touches cs t = some t' ∧ P t' := by
  induction cs generalizing t with
  | nil => exact ⟨t, rfl, ht⟩
  | cons c cs ih =>
    obtain ⟨t', htouch, ht'⟩ := h c List.mem_cons_self t ht
    rw [touches_cons, htouch]
    exact ih (fun c' hc' => h c' (List.mem_cons_of_mem _ hc')) ht'

section Store

variable {D : Dsm}

theorem mem_store {c : Call} {live : List Members} {t t' : Members} (ht : t ∈ live)
    (htouch : c.touch t = some t') : t' ∈ D.store live c := by
  cases c with
  | create args =>
    obtain rfl := Option.some_inj.mp htouch
    exact List.mem_append_left _ ht
  | update args =>
    obtain rfl := Option.some_inj.mp htouch
    exact List.mem_map.mpr ⟨t, ht, rfl⟩
  | delete args =>
    rw [Call.touch] at htouch
    split_ifs at htouch with hnames
    obtain rfl := Option.some_inj.mp htouch
    exact List.mem_filter.mpr ⟨ht, decide_eq_true hnames⟩

theorem mem_foldl_store {cs : List Call} {live : List Members} {t t' : Members} (ht : t ∈ live)
    (htouch : touches cs t = some t') : t' ∈ cs.foldl D.store live := by
  induction cs generalizing live t with
  | nil =>
    obtain rfl := Option.some_inj.mp htouch
    exact ht
  | cons c cs ih =>
    rw [touches_cons] at htouch
    obtain ⟨t₁, h₁, h₂⟩ := Option.bind_eq_some_iff.mp htouch
    exact ih (mem_store ht h₁) h₂

/-- Calls that create nothing change the jobs one by one. -/
theorem foldl_store_eq {cs : List Call} (h : ∀ c ∈ cs, ∀ args, c ≠ .create args) :
    ∀ live : List Members, cs.foldl D.store live = live.filterMap (touches cs) := by
  induction cs with
  | nil => exact fun live => (List.filterMap_some).symm
  | cons c cs ih =>
    intro live
    have hstore : D.store live c = live.filterMap c.touch := by
      cases c with
      | create args => exact absurd rfl (h _ List.mem_cons_self args)
      | update args =>
        exact (congrFun (List.filterMap_eq_map (f := fun t => if Names args t then _ else t))
          live).symm
      | delete args =>
        show live.filter _ = _
        rw [← List.filterMap_eq_filter]
        refine List.filterMap_congr fun t _ => ?_
        rw [Option.guard, Call.touch]
        by_cases hnames : Names args t
        · simp [hnames]
        · simp [hnames]
    rw [List.foldl_cons, hstore, ih fun c' hc' => h c' (List.mem_cons_of_mem _ hc'),
      List.filterMap_filterMap]
    exact List.filterMap_congr fun t _ => (touches_cons c cs t).symm

/-- The jobs that calls create come last, with ids that no job has. -/
theorem foldl_creates (secrets : Members) (ws : List (String × Members)) :
    ∀ live : List Members, ∃ new : List Members,
      (ws.map fun w => Call.create (create_args secrets w)).foldl D.store live = live ++ new ∧
        (∀ e ∈ new, ∃ w ∈ ws, ∃ id, e = (create_args secrets w).set "id" (.str id) ∧
          Key.str id ∉ live.filterMap ident) ∧
        ∀ w ∈ ws, ∃ e ∈ new, ∃ id, e = (create_args secrets w).set "id" (.str id) := by
  induction ws with
  | nil => exact fun live => ⟨[], (List.append_nil live).symm, by simp, by simp⟩
  | cons w ws ih =>
    intro live
    obtain ⟨new, hfold, hnew, hall⟩ :=
      ih (live ++ [(create_args secrets w).set "id" (.str (D.new_id live))])
    refine ⟨(create_args secrets w).set "id" (.str (D.new_id live)) :: new, ?_, ?_, ?_⟩
    · rw [List.map_cons, List.foldl_cons]
      exact hfold.trans (List.append_assoc ..)
    · intro e he
      obtain rfl | he := List.mem_cons.mp he
      · exact ⟨w, List.mem_cons_self, _, rfl, D.fresh live⟩
      · obtain ⟨w', hw', id, he, hid⟩ := hnew e he
        refine ⟨w', List.mem_cons_of_mem _ hw', id, he, fun hmem => hid ?_⟩
        rw [List.filterMap_append]
        exact List.mem_append_left _ hmem
    · intro w' hw'
      obtain rfl | hw' := List.mem_cons.mp hw'
      · exact ⟨_, List.mem_cons_self, _, rfl⟩
      · obtain ⟨e, he, hid⟩ := hall w' hw'
        exact ⟨e, List.mem_cons_of_mem _ he, hid⟩

end Store

/-! ### Arguments -/

theorem get_set (m : Members) (name other : String) (value : Json) :
    (m.set name value).get other = if other = name then value else m.get other := by
  rw [Members.get, Members.lookup_set]
  split_ifs <;> rfl

theorem nodup_set {m : Members} (h : m.names.Nodup) (name : String) (value : Json) :
    (m.set name value).names.Nodup := by
  rw [Members.names_set]
  split_ifs with hmem
  · exact h
  · rw [List.nodup_append]
    refine ⟨h, List.nodup_singleton _, fun a ha b hb he => hmem ?_⟩
    rwa [← List.mem_singleton.mp hb, ← he]

section Arguments

variable {data : Members}

theorem nodup_args_from (h : data.names.Nodup) : (args_from data).names.Nodup :=
  h.sublist (List.filter_sublist.map Prod.fst)

theorem mem_args_from {item : String × Json} :
    item ∈ args_from data ↔ item ∈ data ∧ item.2 ≠ .null := by
  rw [args_from, List.mem_filter]
  refine and_congr_right fun _ => ?_
  cases item.2 <;> simp

/-- What is not null is sent. -/
theorem lookup_args_from (h : data.names.Nodup) {name : String} (hname : data.get name ≠ .null) :
    (args_from data).lookup name = some (data.get name) := by
  refine Dict.lookup_of_mem (nodup_args_from h) (mem_args_from.mpr ⟨?_, hname⟩)
  cases hlookup : data.lookup name with
  | none => exact absurd (by rw [Members.get, hlookup]; rfl) hname
  | some value =>
    rw [Members.get, hlookup]
    exact Dict.mem_of_lookup hlookup

/-- What is null is not. -/
theorem lookup_args_from_of_null (h : data.names.Nodup) {name : String}
    (hname : data.get name = .null) : (args_from data).lookup name = none := by
  cases hlookup : (args_from data).lookup name with
  | none => rfl
  | some value =>
    obtain ⟨hmem, hne⟩ := mem_args_from.mp (Dict.mem_of_lookup hlookup)
    rw [Members.get, Dict.lookup_of_mem h hmem] at hname
    exact absurd hname hne

theorem get_args_from (h : data.names.Nodup) (name : String) :
    (args_from data).get name = data.get name := by
  by_cases hname : data.get name = .null
  · rw [Members.get, lookup_args_from_of_null h hname, hname]
    rfl
  · rw [Members.get, lookup_args_from h hname]
    rfl

/-- A job that is sent `data` has what is not null there. -/
theorem get_update_args_from (h : data.names.Nodup) {name : String}
    (hname : data.get name ≠ .null) (t : Members) :
    (t.update (args_from data)).get name = data.get name := by
  have hmem : name ∈ (args_from data).names := by
    rw [Members.mem_names_iff, lookup_args_from h hname]
    exact nofun
  rw [Members.get, Members.lookup_update (nodup_args_from h), if_pos hmem,
    lookup_args_from h hname]
  rfl

/-- The rest stays as it is. -/
theorem get_update_args_from_of_null (h : data.names.Nodup) {name : String}
    (hname : data.get name = .null) (t : Members) :
    (t.update (args_from data)).get name = t.get name := by
  have hmem : name ∉ (args_from data).names := by
    rw [Members.mem_names_iff, not_not]
    exact lookup_args_from_of_null h hname
  rw [Members.get, Members.lookup_update (nodup_args_from h), if_neg hmem, Members.get]

theorem get_with_secret {secrets : Members} {name field : String} (h : field ≠ "dest_password") :
    (with_secret secrets name data).get field = data.get field := by
  rw [with_secret]
  split_ifs
  · rw [get_set, if_neg h]
  · rfl

theorem nodup_with_secret {secrets : Members} {name : String} (h : data.names.Nodup) :
    (with_secret secrets name data).names.Nodup := by
  rw [with_secret]
  split_ifs
  · exact nodup_set h _ _
  · exact h

end Arguments

/-- The fields of a desired job. -/
def fields : List String :=
  ["task_name", "dest_type", "dest_host", "dest_path", "source_shares", "schedule_time",
    "retention_count", "enable_encryption", "enable_task"]

/-- What an update sends, null apart. -/
def Update.params (secrets : Members) (u : Update) : Members :=
  with_secret secrets u.name (u.want.set "id" (u.live.get "id"))

section Params

variable {secrets : Members} {u : Update} {w : String × Members}

theorem Update.nodup_params (h : u.want.names = fields) : (u.params secrets).names.Nodup :=
  nodup_with_secret (nodup_set (h ▸ by decide) _ _)

theorem Update.get_params {field : String} (hid : field ≠ "id") (hsecret : field ≠ "dest_password") :
    (u.params secrets).get field = u.want.get field := by
  rw [Update.params, get_with_secret hsecret, get_set, if_neg hid]

variable (secrets u) in
theorem Update.id_params : (u.params secrets).get "id" = u.live.get "id" := by
  rw [Update.params, get_with_secret (by decide), get_set, if_pos rfl]

variable (secrets) in
theorem Update.ident_args (h : u.want.names = fields) :
    ident (u.args secrets) = ident u.live :=
  ident_congr ((get_args_from (Update.nodup_params h) "id").trans (u.id_params secrets))

/-- A job that is updated has the id that is sent. -/
theorem Update.ident_update (h : u.want.names = fields) (hid : ident u.live ≠ none) (t : Members) :
    ident (t.update (u.args secrets)) = ident u.live := by
  refine ident_congr ((get_update_args_from (u.nodup_params h) ?_ t).trans (u.id_params secrets))
  exact u.id_params secrets ▸ ne_null_of_ident hid

theorem ident_delete_args (e : Key × Members) : ident (delete_args e) = ident e.2 := by
  have hnodup : (Members.names [("id", e.2.get "id")]).Nodup := List.nodup_singleton _
  refine ident_congr ((get_args_from hnodup "id").trans ?_)
  rw [Members.get_cons, if_pos rfl]

end Params

/-! ### The calls of a plan -/

/-- No id names two live jobs. -/
def Distinct (live : List Members) : Prop := (live.filterMap ident).Nodup

theorem Distinct.inj {live : List Members} (h : Distinct live) {a b : Members} {i : Key}
    (ha : a ∈ live) (hb : b ∈ live) (hai : ident a = some i) (hbi : ident b = some i) : a = b := by
  have hone := (EntryLists.filter_key_eq h ha hai).symm.trans (EntryLists.filter_key_eq h hb hbi)
  exact (List.cons.inj hone).1

section Edits

variable {S : Sorting} {D : Dsm} {defaults secrets : Members} {desired : List Job}
  {live : List Members}

theorem mem_wanted {w : String × Members} (h : w ∈ wanted defaults secrets desired) :
    ∃ j ∈ desired, w = (j.name, flatten defaults j) := by
  have hmem := Dict.mem_of_mem_ofItems w (List.mem_filter.mp h).1
  obtain ⟨j, hj, rfl⟩ := List.mem_map.mp hmem
  exact ⟨j, hj, rfl⟩

/-- The desired jobs have different names. -/
theorem eq_of_wanted {w w' : String × Members} (hw : w ∈ wanted defaults secrets desired)
    (hw' : w' ∈ wanted defaults secrets desired) (h : w.1 = w'.1) : w = w' := by
  have hnodup : (Dict.keys (desired_by_name defaults desired)).Nodup := Dict.nodup_keys_ofItems _
  have hlookup := Dict.lookup_of_mem hnodup (List.mem_filter.mp hw).1
  have hlookup' := Dict.lookup_of_mem hnodup (List.mem_filter.mp hw').1
  rw [h] at hlookup
  exact Prod.ext h (Option.some_inj.mp (hlookup.symm.trans hlookup'))

/-- What a planned update is made of. -/
structure Planned (S : Sorting) (defaults secrets : Members) (desired : List Job)
    (live : List Members) (u : Update) (j : Job) : Prop where
  job : j ∈ desired
  name : u.name = j.name
  want : u.want = flatten defaults j
  wanted : (u.name, u.want) ∈ wanted defaults secrets desired
  last : last (.str j.name) live = some u.live

theorem Planned.names {u : Update} {j : Job} (h : Planned S defaults secrets desired live u j) :
    u.want.names = fields := by
  rw [h.want]
  rfl

theorem planned_of_mem {u : Update} (h : u ∈ updates S defaults secrets desired live) :
    ∃ j, Planned S defaults secrets desired live u j := by
  obtain ⟨w, hw, hu⟩ := mem_updates.mp h
  obtain ⟨hlast, hname, hwant, -⟩ := updateOf_eq_some.mp hu
  obtain ⟨j, hj, rfl⟩ := mem_wanted hw
  exact ⟨j, hj, hname, hwant, by rwa [hname, hwant], hlast⟩

/-- The calls of a plan that change or delete a job. -/
def edits (S : Sorting) (defaults secrets : Members) (desired : List Job) (live : List Members) :
    List Call :=
  (updates S defaults secrets desired live).map (fun u => .update (u.args secrets)) ++
    (deletes defaults desired live).map fun e => .delete (delete_args e)

theorem mem_edits {c : Call} : c ∈ edits S defaults secrets desired live ↔
    (∃ u ∈ updates S defaults secrets desired live, .update (u.args secrets) = c) ∨
      ∃ e ∈ deletes defaults desired live, .delete (delete_args e) = c := by
  rw [edits, List.mem_append, List.mem_map, List.mem_map]

/-- The live jobs that are changed or deleted. -/
def edited (S : Sorting) (defaults secrets : Members) (desired : List Job) (live : List Members) :
    List Members :=
  (updates S defaults secrets desired live).map Update.live ++
    (deletes defaults desired live).map Prod.snd

theorem targets_edits : (edits S defaults secrets desired live).filterMap Call.target =
    (edited S defaults secrets desired live).filterMap ident := by
  rw [edits, edited, List.filterMap_append, List.filterMap_append, List.filterMap_map,
    List.filterMap_map, List.filterMap_map, List.filterMap_map]
  congr 1
  · refine List.filterMap_congr fun u hu => ?_
    obtain ⟨j, hj⟩ := planned_of_mem hu
    exact Update.ident_args secrets hj.names
  · exact List.filterMap_congr fun e _ => ident_delete_args e

theorem mem_live_of_edited {t : Members} (h : t ∈ edited S defaults secrets desired live) :
    t ∈ live := by
  obtain h | h := List.mem_append.mp h
  · obtain ⟨u, hu, rfl⟩ := List.mem_map.mp h
    obtain ⟨j, hj⟩ := planned_of_mem hu
    exact (mem_of_last hj.last).1
  · obtain ⟨e, he, rfl⟩ := List.mem_map.mp h
    exact (mem_of_last (mem_deletes.mp he).1).1

/-- The jobs that are changed or deleted have different keys. -/
theorem pairwise_edited :
    (edited S defaults secrets desired live).Pairwise fun a b => job_key a ≠ job_key b := by
  rw [edited, List.pairwise_append, List.pairwise_map, List.pairwise_map]
  refine ⟨?_, ?_, ?_⟩
  · have hnames : (wanted defaults secrets desired).Pairwise fun w w' => w.1 ≠ w'.1 := by
      have hnodup : (Dict.keys (desired_by_name defaults desired)).Nodup :=
        Dict.nodup_keys_ofItems _
      exact (List.pairwise_map.mp hnodup).sublist List.filter_sublist
    refine List.pairwise_filterMap.mpr (hnames.imp fun {w w'} hne u hu u' hu' heq => hne ?_)
    obtain ⟨hlast, -⟩ := updateOf_eq_some.mp hu
    obtain ⟨hlast', -⟩ := updateOf_eq_some.mp hu'
    have hkey := (mem_of_last hlast).2.symm.trans (heq.trans (mem_of_last hlast').2)
    exact Key.str.inj (Option.some_inj.mp hkey)
  · have hkeys := List.pairwise_map.mp (nodup_keys_live_by_name live)
    refine List.Pairwise.imp_of_mem (fun {e e'} he he' hne heq => hne ?_)
      (hkeys.sublist List.filter_sublist)
    have hkey := (mem_of_last (mem_deletes.mp he).1).2
    have hkey' := (mem_of_last (mem_deletes.mp he').1).2
    exact Option.some_inj.mp (hkey.symm.trans (heq.trans hkey'))
  · intro a ha b hb heq
    obtain ⟨u, hu, rfl⟩ := List.mem_map.mp ha
    obtain ⟨e, he, rfl⟩ := List.mem_map.mp hb
    obtain ⟨j, hj⟩ := planned_of_mem hu
    have hkey := (mem_of_last hj.last).2
    have hkey' := (mem_of_last (mem_deletes.mp he).1).2
    exact (mem_deletes.mp he).2 j hj.job (Option.some_inj.mp (hkey'.symm.trans (heq.symm.trans hkey)))

/-- The calls of a plan name different jobs. -/
theorem nodup_targets (hlive : Distinct live) :
    ((edits S defaults secrets desired live).filterMap Call.target).Nodup := by
  rw [targets_edits]
  refine List.pairwise_filterMap.mpr (pairwise_edited.imp_of_mem fun {a b} ha hb hne i hi i' hi' => ?_)
  rintro rfl
  have heq := hlive.inj (mem_live_of_edited ha) (mem_live_of_edited hb) hi hi'
  exact hne (congrArg job_key heq)

theorem touches_update (hlive : Distinct live) {u : Update}
    (hu : u ∈ updates S defaults secrets desired live) (hid : ident u.live ≠ none) :
    touches (edits S defaults secrets desired live) u.live =
      some (u.live.update (u.args secrets)) := by
  obtain ⟨j, hj⟩ := planned_of_mem hu
  obtain ⟨i, hi⟩ := Option.ne_none_iff_exists'.mp hid
  have htarget := Update.ident_args secrets hj.names
  have htouch : (Call.update (u.args secrets)).touch u.live =
      some (u.live.update (u.args secrets)) :=
    congrArg some (if_pos ⟨htarget.symm ▸ hid, htarget.symm⟩)
  rw [← htouch]
  refine touches_of_mem (c := .update (u.args secrets)) (htarget.trans hi) hi ?_
    (nodup_targets hlive) (mem_edits.mpr (.inl ⟨u, hu, rfl⟩))
  intro t' ht'
  obtain rfl := Option.some_inj.mp (htouch.symm.trans ht')
  exact Update.ident_update hj.names hid _

theorem touches_delete (hlive : Distinct live) {e : Key × Members}
    (he : e ∈ deletes defaults desired live) (hid : ident e.2 ≠ none) :
    touches (edits S defaults secrets desired live) e.2 = none := by
  obtain ⟨i, hi⟩ := Option.ne_none_iff_exists'.mp hid
  have htarget := ident_delete_args e
  have htouch : (Call.delete (delete_args e)).touch e.2 = none :=
    if_pos ⟨htarget.symm ▸ hid, htarget.symm⟩
  rw [← htouch]
  refine touches_of_mem (c := .delete (delete_args e)) (htarget.trans hi) hi ?_
    (nodup_targets hlive) (mem_edits.mpr (.inr ⟨e, he, rfl⟩))
  intro t' ht'
  exact nomatch htouch.symm.trans ht'

variable (S defaults secrets desired) in
/-- A live job is left alone, updated or deleted. -/
theorem touched_cases (hlive : Distinct live) {t : Members} (ht : t ∈ live) :
    touches (edits S defaults secrets desired live) t = some t ∨
      (∃ u ∈ updates S defaults secrets desired live, u.live = t ∧
        touches (edits S defaults secrets desired live) t = some (t.update (u.args secrets))) ∨
      ∃ e ∈ deletes defaults desired live, e.2 = t ∧
        touches (edits S defaults secrets desired live) t = none := by
  by_cases hhit : ∃ c ∈ edits S defaults secrets desired live, ∃ i, c.target = some i ∧
      ident t = some i
  · obtain ⟨c, hc, i, hi, hti⟩ := hhit
    obtain ⟨u, hu, rfl⟩ | ⟨e, he, rfl⟩ := mem_edits.mp hc
    · obtain ⟨j, hj⟩ := planned_of_mem hu
      have hlive' : ident u.live = some i := (Update.ident_args secrets hj.names).symm.trans hi
      obtain rfl := hlive.inj (mem_of_last hj.last).1 ht hlive' hti
      exact .inr (.inl ⟨u, hu, rfl, touches_update hlive hu (hti ▸ nofun)⟩)
    · have hlive' : ident e.2 = some i := (ident_delete_args e).symm.trans hi
      obtain rfl := hlive.inj (mem_of_last (mem_deletes.mp he).1).1 ht hlive' hti
      exact .inr (.inr ⟨e, he, rfl, touches_delete hlive he (hti ▸ nofun)⟩)
  · exact .inl (touches_of_target_ne fun c hc i hi hti => hhit ⟨c, hc, i, hi, hti⟩)

end Edits

end ApplyHyperBackup
